import LispFront.Proofs.Analysis.Relational.Correspondence
import LispFront.Tree.Equality

/-!
# Corresponding trees are equal

Equality of trees looks at operators, forms and environments part by part, as a correspondence does:
if nothing corresponds but equal parts, then what is built of them is equal.
-/

namespace LispFront

open List (Forall₂)

namespace Correspondence

/-- Whatever corresponds is equal, as trees and forms are equal. -/
structure Equates (C : Correspondence) : Prop where
  form {f f' : Form} : C.form f f' → f.beq f' = true
  node {n n' : Node} : C.node n n' → n.beq n' = true
  var {v v' : Var} : C.var v v' → v.id = v'.id
  loopId {id id' : Symbol} : C.loopId id id' → id = id'

variable {C : Correspondence} (hC : C.Equates)
include hC

theorem beqNodes_of {ns ns' : List Node} (h : Forall₂ C.node ns ns') : beqNodes ns ns' = true := by
  induction h with
  | nil => simp [beqNodes]
  | cons hn _ ih => simp [beqNodes, hC.node hn, ih]

theorem beqNode?_of {n n' : Option Node} (h : Option.Rel C.node n n') : beqNode? n n' = true := by
  cases h with
  | none => simp [beqNode?]
  | some hn => simp [beqNode?, hC.node hn]

theorem beqForm?_of {f f' : Option Form} (h : Option.Rel C.form f f') : beqForm? f f' = true := by
  cases h with
  | none => rfl
  | some hf => exact hC.form hf

theorem var_beq {v v' : Var} (h : C.var v v') : v.beq v' = true := beq_iff_eq.mpr (hC.var h)

theorem loopId_eq {id id' : Option Symbol} (h : Option.Rel C.loopId id id') : id = id' := by
  cases h with
  | none => rfl
  | some h => exact congrArg some (hC.loopId h)

theorem binding_beq {b b' : Binding} (h : b.Like C b') : b.beq b' = true := by
  obtain ⟨hname, hkind, hinit, hargId, hvariadic, hassignable⟩ := h
  cases b
  cases b'
  simp only [Binding.beq, Bool.and_eq_true, beq_iff_eq]
  exact ⟨⟨⟨⟨⟨hname, hkind⟩, hargId⟩, hvariadic⟩, hassignable⟩, beqNode?_of hC hinit⟩

theorem beqBinding?_of {b b' : Option Binding} (h : Option.Rel (Binding.Like C) b b') :
    beqBinding? b b' = true := by
  cases h with
  | none => simp [beqBinding?]
  | some hb => simp [beqBinding?, binding_beq hC hb]

theorem beqBindings_of {bs bs' : List Binding} (h : Forall₂ (Binding.Like C) bs bs') :
    beqBindings bs bs' = true := by
  induction h with
  | nil => simp [beqBindings]
  | cons hb _ ih => simp [beqBindings, binding_beq hC hb, ih]

theorem env_beq {e e' : Env} (h : e.Like C e') : e.beq e' = true := by
  obtain ⟨hlocals, hcontext, hns, hid, harity, htry, honce, htop, hself⟩ := h
  cases e
  cases e'
  simp only [Env.beq, Bool.and_eq_true, beq_iff_eq]
  exact ⟨⟨⟨⟨⟨⟨⟨⟨hcontext, hns⟩, loopId_eq hC hid⟩, harity⟩, htry⟩, honce⟩, htop⟩,
    beqBinding?_of hC hself⟩, beqBindings_of hC hlocals⟩

theorem op_beq {op op' : Op} (h : op.Like C op') : op.beq op' = true := by
  cases h with
  | const hval hm => simp [Op.beq, hC.form hval, beqNode?_of hC hm]
  | vector hs | set hs => simp [Op.beq, beqNodes_of hC hs]
  | map hk hv => simp [Op.beq, beqNodes_of hC hk, beqNodes_of hC hv]
  | localRef hb | binding hb => simp [Op.beq, binding_beq hC hb]
  | varRef hv | theVar hv => simp [Op.beq, var_beq hC hv]
  | hostForm | classRef => simp [Op.beq]
  | invoke hfn hs hm =>
    have hmetadata : FormMap.beq _ _ = true := hC.form hm
    simp [Op.beq, hC.node hfn, beqNodes_of hC hs, hmetadata]
  | sequence _ hs hn => simp [Op.beq, beqNodes_of hC hs, hC.node hn]
  | branch hx hy hz | handler hx hy hz => simp [Op.beq, hC.node hx, hC.node hy, hC.node hz]
  | new hn hs | hostCall _ hn hs => simp [Op.beq, hC.node hn, beqNodes_of hC hs]
  | quote hn | throw hn | hostField _ hn | hostMember _ hn => simp [Op.beq, hC.node hn]
  | assign hx hy | withMetadata hx hy => simp [Op.beq, hC.node hx, hC.node hy]
  | tryBlock hb hs hc => simp [Op.beq, hC.node hb, beqNodes_of hC hs, beqNode?_of hC hc]
  | define _ hv hm hi => simp [Op.beq, var_beq hC hv, beqNode?_of hC hm, beqNode?_of hC hi]
  | letBlock hs hn | letfnBlock hs hn | caseBranch hs hn =>
    simp [Op.beq, beqNodes_of hC hs, hC.node hn]
  | loop hid hs hn => simp [Op.beq, hC.loopId hid, beqNodes_of hC hs, hC.node hn]
  | recur hid hs => simp [Op.beq, hC.loopId hid, beqNodes_of hC hs]
  | fn _ _ _ hself hs => simp [Op.beq, beqNode?_of hC hself, beqNodes_of hC hs]
  | method _ _ hid hs hn hself =>
    simp [Op.beq, hC.loopId hid, beqNodes_of hC hs, hC.node hn, beqBinding?_of hC hself]
  | case _ _ _ _ ht hs hd hskip =>
    simp [Op.beq, hC.node ht, beqNodes_of hC hs, hC.node hd, beqForm?_of hC hskip]

theorem node_beq {op op' : Op} {f f' : Form} {e e' : Env} (hop : op.Like C op')
    (hf : C.form f f') (he : e.Like C e') : Node.beq (.of op f e) (.of op' f' e') = true := by
  simp [Node.of, Node.beq, op_beq hC hop, hC.form hf, env_beq hC he]

end Correspondence

end LispFront
