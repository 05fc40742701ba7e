import LispFront.Proofs.Analysis.Relational.Analyzer
import LispFront.Proofs.NameSupply
import LispFront.Proofs.Tree.Renaming

/-!
# Analyses whose loop ids are numbered differently

Nothing that an analysis does depends on what loop ids look like. Where the supply has given out
more names and the loop ids of the environment are renamed accordingly, the tree comes out renamed
as well, and nothing else changes.
-/

namespace LispFront

open AnalyzerM
open List (Forall₂)

def Analysis.skip (s : Analysis) (k : Nat) : Analysis := { s with names := s.names.after k }

theorem Analysis.skip_zero (s : Analysis) : s.skip 0 = s := by
  unfold skip
  rw [s.names.after_zero]

def Shifts (ρ : Symbol → Symbol) (k : Nat) : Prop :=
  ∀ s : NameSupply, ρ (s.peek "loop_") = (s.after k).peek "loop_"

namespace Correspondence

/-- Equality after renaming, `k` names later, but for errors of the first analysis that escape. -/
def renumbered (ρ : Symbol → Symbol) (k : Nat) (escapes : AnalysisError → Prop) : Correspondence where
  form := Eq
  node n n' := n.mapIds ρ = n'
  var := Eq
  loopId id id' := ρ id = id'
  store s t := s.skip k = t
  error := Eq
  escapes

variable {ρ : Symbol → Symbol} {k : Nat} {escapes : AnalysisError → Prop}

theorem eq_of_rel {α : Type} {o o' : Option α} (h : Option.Rel Eq o o') : o = o' := by
  cases h with
  | none => rfl
  | some h => exact congrArg some h

theorem mapIds_of_node {n n' : Node} (h : (renumbered ρ k escapes).node n n') : n.mapIds ρ = n' := h

theorem mapIds_of_nodes {ns ns' : List Node} (h : Forall₂ (renumbered ρ k escapes).node ns ns') :
    mapIdsOfNodes ρ ns = ns' := by
  induction h with
  | nil => rfl
  | cons hn _ ih => rw [mapIdsOfNodes, mapIds_of_node hn, ih]

theorem mapIds_of_node? {n n' : Option Node} (h : Option.Rel (renumbered ρ k escapes).node n n') :
    mapIdsOfNode? ρ n = n' := by
  cases h with
  | none => rfl
  | some hn => rw [mapIdsOfNode?, mapIds_of_node hn]

theorem bindingLike_mapIds : ∀ b : Binding, b.Like (renumbered ρ k escapes) (b.mapIds ρ)
  | ⟨_, _, none, _, _, _⟩ => ⟨rfl, rfl, .none, rfl, rfl, rfl⟩
  | ⟨_, _, some _, _, _, _⟩ => ⟨rfl, rfl, .some rfl, rfl, rfl, rfl⟩

theorem mapIds_of_bindingLike {b b' : Binding} (h : b.Like (renumbered ρ k escapes) b') :
    b.mapIds ρ = b' := by
  obtain ⟨hname, hkind, hinit, hargId, hvariadic, hassignable⟩ := h
  cases b
  cases b'
  rw [Binding.mapIds, mapIds_of_node? hinit]
  simp_all

theorem mapIds_of_binding? {b b' : Option Binding}
    (h : Option.Rel (Binding.Like (renumbered ρ k escapes)) b b') : mapIdsOfBinding? ρ b = b' := by
  cases h with
  | none => rfl
  | some hb => rw [mapIdsOfBinding?, mapIds_of_bindingLike hb]

theorem mapIds_of_bindings {bs bs' : List Binding}
    (h : Forall₂ (Binding.Like (renumbered ρ k escapes)) bs bs') : mapIdsOfBindings ρ bs = bs' := by
  induction h with
  | nil => rfl
  | cons hb _ ih => rw [mapIdsOfBindings, mapIds_of_bindingLike hb, ih]

theorem envLike_mapIds (e : Env) : e.Like (renumbered ρ k escapes) (e.mapIds ρ) := by
  obtain ⟨locals, context, ns, loopId, loopArity, inTry, once, topLevel, self⟩ := e
  refine ⟨?_, rfl, rfl, ?_, rfl, rfl, rfl, rfl, ?_⟩
  · change Forall₂ _ locals (mapIdsOfBindings ρ locals)
    induction locals with
    | nil => exact .nil
    | cons b bs ih => exact .cons (bindingLike_mapIds b) ih
  · cases loopId with
    | none => exact .none
    | some id => exact .some rfl
  · cases self with
    | none => exact .none
    | some b => exact .some (bindingLike_mapIds b)

theorem mapIds_of_envLike {e e' : Env} (h : e.Like (renumbered ρ k escapes) e') :
    e.mapIds ρ = e' := by
  obtain ⟨hlocals, hcontext, hns, hid, harity, htry, honce, htop, hself⟩ := h
  cases e
  cases e'
  rw [Env.mapIds, mapIds_of_bindings hlocals, mapIds_of_binding? hself]
  cases hid with
  | none => simp_all
  | some hid =>
    cases hid
    simp_all

theorem mapIds_of_opLike {op op' : Op} (h : op.Like (renumbered ρ k escapes) op') :
    op.mapIds ρ = op' := by
  cases h with
  | const hval hm =>
    cases hval
    rw [Op.mapIds, mapIds_of_node? hm]
  | vector hs | set hs => rw [Op.mapIds, mapIds_of_nodes hs]
  | map hk hv => rw [Op.mapIds, mapIds_of_nodes hk, mapIds_of_nodes hv]
  | localRef hb | binding hb => rw [Op.mapIds, mapIds_of_bindingLike hb]
  | varRef hv | theVar hv =>
    cases hv
    rw [Op.mapIds]
  | hostForm | classRef => rw [Op.mapIds]
  | invoke hfn hs hm =>
    cases hm
    rw [Op.mapIds, mapIds_of_node hfn, mapIds_of_nodes hs]
  | branch hx hy hz | handler hx hy hz =>
    rw [Op.mapIds, mapIds_of_node hx, mapIds_of_node hy, mapIds_of_node hz]
  | new hn hs | hostCall _ hn hs => rw [Op.mapIds, mapIds_of_node hn, mapIds_of_nodes hs]
  | quote hn | throw hn | hostField _ hn | hostMember _ hn => rw [Op.mapIds, mapIds_of_node hn]
  | assign hx hy | withMetadata hx hy => rw [Op.mapIds, mapIds_of_node hx, mapIds_of_node hy]
  | tryBlock hn hs hc =>
    rw [Op.mapIds, mapIds_of_node hn, mapIds_of_nodes hs, mapIds_of_node? hc]
  | define _ hv hm hi =>
    cases hv
    rw [Op.mapIds, mapIds_of_node? hm, mapIds_of_node? hi]
  | sequence _ hs hn | letBlock hs hn | letfnBlock hs hn | caseBranch hs hn =>
    rw [Op.mapIds, mapIds_of_nodes hs, mapIds_of_node hn]
  | loop hid hs hn =>
    cases hid
    rw [Op.mapIds, mapIds_of_nodes hs, mapIds_of_node hn]
  | recur hid hs =>
    cases hid
    rw [Op.mapIds, mapIds_of_nodes hs]
  | fn _ _ _ hself hs => rw [Op.mapIds, mapIds_of_node? hself, mapIds_of_nodes hs]
  | method _ _ hid hs hn hself =>
    cases hid
    rw [Op.mapIds, mapIds_of_nodes hs, mapIds_of_node hn, mapIds_of_binding? hself]
  | case _ _ _ _ ht hs hd hskip =>
    rw [Op.mapIds, mapIds_of_node ht, mapIds_of_nodes hs, mapIds_of_node hd, eq_of_rel hskip]

theorem eq_of_faultLike {x x' : AnalysisFault} (h : x.Like Eq x') : x = x' := by
  cases h with
  | same => rfl
  | caseArgument _ _ hf | bindingsNotVector _ hf => rw [hf]
  | varNotFound hf | memberNotSymbol hf | defNeedsSymbol hf | docNotString hf | badBinding hf
  | methodNotList hf | paramsNotVector hf | badParam hf | unknownSwitch hf | unknownTest hf => rw [hf]

theorem renumbered_agrees : (renumbered ρ k escapes).Agrees where
  resolve := by
    rintro s _ ns x rfl
    exact related_option_refl (fun _ => rfl) _
  isClass := by
    rintro s _ x rfl
    rfl

theorem renumbered_lawful (hρ : Shifts ρ k) (hwithin : ∀ e f, escapes e → escapes (e.within f)) :
    (renumbered ρ k escapes).Lawful where
  toReadsAlike := readsAlike_eq
  resolve := renumbered_agrees.resolved
  intern := by
    rintro s _ ns name x m m' rfl h
    cases h
    change (renumbered ρ k escapes).Interned s (s.skip k) (s.directory.intern ns name m)
      (s.directory.intern ns name m)
    rcases s.directory.intern ns name m with e | ⟨v, d⟩
    · exact .error e
    · exact .ok rfl rfl
  loopId := by
    rintro s _ rfl
    exact hρ s.names
  advance := by
    rintro s _ rfl
    change { s with names := s.names.advance.after k } =
      { s with names := (s.names.after k).advance }
    rw [s.names.advance_after k]
  node := by
    rintro op op' f _ e e' hop rfl he
    rw [← mapIds_of_opLike hop, ← mapIds_of_envLike he]
    rfl
  expandedFrom := by
    rintro n _ f _ rfl rfl
    cases n
    rfl
  error := by
    rintro x x' f _ hx rfl
    rw [eq_of_faultLike hx]
    rfl
  within := by
    rintro e _ f _ rfl rfl
    rfl
  escapes_within := hwithin _

end Correspondence

open Correspondence

/-- What the expander makes of a form does not depend on loop ids. -/
def Analyzer.IgnoresLoopIds (a : Analyzer) : Prop :=
  ∀ form env ρ, a.expand form (Env.mapIds ρ env) = a.expand form env

variable {ρ : Symbol → Symbol} {k : Nat} {a : Analyzer}

theorem expands_renumbered {escapes : AnalysisError → Prop} (ha : a.IgnoresLoopIds) :
    (renumbered ρ k escapes).Expands a a := by
  rintro f _ e e' rfl he
  rw [← mapIds_of_envLike he]
  unfold Analyzer.expansion
  rw [ha]
  split
  · exact relates_pure rfl
  · exact relates_throw rfl

theorem recurses_renumbered (ha : a.IgnoresLoopIds) (hρ : Shifts ρ k) (levels : Nat) :
    (renumbered ρ k fun _ => False).Recurses (a.analyzeUpTo levels) (a.analyzeUpTo levels) := by
  have hC : (renumbered ρ k fun _ => False).Lawful := renumbered_lawful hρ fun _ _ h => h
  induction levels with
  | zero => exact fun f f' e e' hf _ => relates_fail_same hC hf
  | succ levels ih =>
    intro f f' e e' hf he
    exact relates_analyzeLevel hC ih hf he (expands_renumbered ha)
      (looksUp_of_checkClasses hC renumbered_agrees rfl)

theorem run_of_renumbered {x y : AnalyzerM Node}
    (hxy : (renumbered ρ k fun _ => False).Relates x y (renumbered ρ k fun _ => False).node)
    {s t : Analysis} {r : Except AnalysisError Node} (h : x.run.run s = (r, t)) :
    y.run.run (s.skip k) = (r.map (Node.mapIds ρ), t.skip k) := by
  have hrun := hxy s (s.skip k) rfl
  rw [h] at hrun
  generalize y.run.run (s.skip k) = q at hrun ⊢
  cases hrun with
  | ok hn hst =>
    cases hn
    cases hst
    rfl
  | error he hst =>
    cases he
    cases hst
    rfl
  | escape he => exact he.elim

end LispFront
