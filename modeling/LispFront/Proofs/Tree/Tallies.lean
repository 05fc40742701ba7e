import LispFront.Proofs.Tree.Effects
import LispFront.Proofs.Tree.Env
import LispFront.Proofs.Tree.Renaming

/-!
# Trees that stand for given changes

`Tallies ns ρ H es nodes` says that `es` are the changes that the nodes stand for, each as often as
it stands in them, that the nodes stay in the namespace `ns`, and that they have no ids but those
that were drawn and those that the assumption `H` speaks of: if `H` holds, and the renaming `ρ`
leaves the drawn ids alone, then it leaves the nodes alone. The order in which changes and nodes are
listed does not matter.
-/

namespace LispFront

namespace Op

def isPlain : Op → Bool
  | .define .. | .loop .. | .method .. | .recur .. => false
  | .localRef b => b.init.isNone
  | _ => true

theorem effect?_of_isPlain {op : Op} (h : op.isPlain) : op.effect? = none := by
  cases op <;> first | rfl | cases h

theorem keeps_of_isPlain {op : Op} (h : op.isPlain) (ρ : Symbol → Symbol) : op.Keeps ρ := by
  cases op with
  | localRef b => exact Binding.mapIds_of_init (Option.isNone_iff_eq_none.mp h)
  | loop | method | recur => cases h
  | _ => trivial

end Op

def Fixes (ρ : Symbol → Symbol) (es : List Effect) : Prop := ∀ id, .draw id ∈ es → ρ id = id

theorem Fixes.drawn {ρ : Symbol → Symbol} {id : Symbol} (h : Fixes ρ [.draw id]) : ρ id = id :=
  h id List.mem_cons_self

theorem fixes_append {ρ : Symbol → Symbol} {es fs : List Effect} :
    Fixes ρ (es ++ fs) ↔ Fixes ρ es ∧ Fixes ρ fs := by
  simp only [Fixes, List.mem_append, or_imp, forall_and]

def Env.Kept (ns : Symbol) (ρ : Symbol → Symbol) (H : Prop) (e : Env) : Prop :=
  e.ns = ns ∧ (H → mapIdsOfBindings ρ e.locals = e.locals ∧ e.loopId.map ρ = e.loopId ∧
    mapIdsOfBinding? ρ e.self = e.self)

structure Tallies (ns : Symbol) (ρ : Symbol → Symbol) (H : Prop) (es : List Effect)
    (nodes : List Node) : Prop where
  perm : es.Perm (Node.effects nodes)
  staysIn : ∀ n ∈ nodes, n.StaysIn ns
  fixed : H → Fixes ρ es → ∀ n ∈ nodes, n.mapIds ρ = n

variable {ns : Symbol} {ρ : Symbol → Symbol} {H H' : Prop}

namespace Env

variable {e : Env}

theorem kept_iff : e.Kept ns ρ H ↔ e.ns = ns ∧ (H → e.mapIds ρ = e) := by
  cases e
  simp [Kept, mapIds]

theorem kept_false (h : e.ns = ns) : e.Kept ns id False := ⟨h, False.elim⟩

namespace Kept

variable (he : e.Kept ns ρ H)
include he

theorem mono (h : H' → H) : e.Kept ns ρ H' := ⟨he.1, fun hH => he.2 (h hH)⟩

theorem withoutLocals : e.withoutLocals.Kept ns ρ H :=
  ⟨he.1, fun hH => ⟨rfl, (he.2 hH).2⟩⟩

theorem withoutSelf : e.withoutSelf.Kept ns ρ H :=
  ⟨he.1, fun hH => ⟨(he.2 hH).1, (he.2 hH).2.1, rfl⟩⟩

theorem withLoopId {id : Symbol} (hid : H → ρ id = id) : (e.withLoopId id).Kept ns ρ H :=
  ⟨he.1, fun hH => ⟨(he.2 hH).1, congrArg some (hid hH), (he.2 hH).2.2⟩⟩

theorem withSelf {b : Binding} (hb : H → b.mapIds ρ = b) : (e.withSelf b).Kept ns ρ H :=
  ⟨he.1, fun hH => ⟨(he.2 hH).1, (he.2 hH).2.1, congrArg some (hb hH)⟩⟩

theorem bind {b : Binding} (hb : H → b.mapIds ρ = b) : (e.bind b).Kept ns ρ H := by
  refine ⟨he.1, fun hH => ⟨?_, (he.2 hH).2⟩⟩
  have hlocals := mapIdsOfBindings_eq_self_iff.mp (he.2 hH).1
  refine mapIdsOfBindings_eq_self_iff.mpr fun c hc => ?_
  rcases Sorted.mem_insert hc with rfl | hc
  · exact hb hH
  · exact hlocals c hc

theorem bindMany {bs : List Binding} (hbs : H → ∀ b ∈ bs, b.mapIds ρ = b) :
    (e.bindMany bs).Kept ns ρ H := by
  induction bs generalizing e with
  | nil => exact he
  | cons b bs ih =>
    exact ih (he.bind fun hH => hbs hH b List.mem_cons_self) fun hH c hc =>
      hbs hH c (List.mem_cons_of_mem b hc)

end Kept

end Env

namespace Tallies

variable {es fs : List Effect} {as bs : List Node} {n : Node}

theorem nil : Tallies ns ρ H [] [] := ⟨by simp [Node.effects, Node.walkStack], by simp, by simp⟩

theorem append_after (ha : Tallies ns ρ H es as) (hb : Tallies ns ρ (H ∧ Fixes ρ es) fs bs) :
    Tallies ns ρ H (es ++ fs) (as ++ bs) := by
  refine ⟨?_, fun n hn => ?_, fun hH hfix n hn => ?_⟩
  · rw [Node.effects_append]
    exact ha.perm.append hb.perm
  · rcases List.mem_append.mp hn with hn | hn
    · exact ha.staysIn n hn
    · exact hb.staysIn n hn
  · obtain ⟨hes, hfs⟩ := fixes_append.mp hfix
    rcases List.mem_append.mp hn with hn | hn
    · exact ha.fixed hH hes n hn
    · exact hb.fixed ⟨hH, hes⟩ hfs n hn

theorem mono (h : Tallies ns ρ H es as) (hH : H' → H) : Tallies ns ρ H' es as :=
  ⟨h.perm, h.staysIn, fun h' => h.fixed (hH h')⟩

theorem append (ha : Tallies ns ρ H es as) (hb : Tallies ns ρ H fs bs) :
    Tallies ns ρ H (es ++ fs) (as ++ bs) :=
  ha.append_after (hb.mono And.left)

theorem cons {a : Node} (ha : Tallies ns ρ H es [a]) (hb : Tallies ns ρ H fs bs) :
    Tallies ns ρ H (es ++ fs) (a :: bs) :=
  ha.append hb

theorem reorder (h : Tallies ns ρ H es as) (he : es.Perm fs) (hn : as.Perm bs) :
    Tallies ns ρ H fs bs where
  perm := (he.symm.trans h.perm).trans (Node.effects_perm hn)
  staysIn n hb := h.staysIn n (hn.mem_iff.mpr hb)
  fixed hH hfix n hb :=
    h.fixed hH (fun id hid => hfix id (he.mem_iff.mp hid)) n (hn.mem_iff.mpr hb)

theorem of_below (ds : List Effect) (hds : n.op.effect?.toList = ds)
    (h : Tallies ns ρ (H ∧ Fixes ρ ds) es n.childNodes)
    (henv : n.env.Kept ns ρ (H ∧ Fixes ρ (ds ++ es)))
    (hown : H → Fixes ρ (ds ++ es) → n.op.Keeps ρ) : Tallies ns ρ H (ds ++ es) [n] := by
  refine ⟨?_, List.forall_mem_singleton.mpr (Node.staysIn_iff.mpr ⟨henv.1, h.staysIn⟩),
    fun hH hfix => List.forall_mem_singleton.mpr ?_⟩
  · rw [Node.effects_singleton, hds]
    exact h.perm.append_left _
  · obtain ⟨hfixds, hfixes⟩ := fixes_append.mp hfix
    have hbelow := h.fixed ⟨hH, hfixds⟩ hfixes
    have hop : n.op.mapIds ρ = n.op :=
      Op.mapIds_eq_self (hown hH hfix) fun c hc m hm => hbelow m (Node.mem_childNodes hc hm)
    have he : n.env.mapIds ρ = n.env := (Env.kept_iff.mp henv).2 ⟨hH, hfix⟩
    exact Node.mapIds_eq_self_iff.mpr ⟨hop, he⟩

theorem node (h : Tallies ns ρ H es n.childNodes) (hop : n.op.isPlain) (he : n.env.Kept ns ρ H) :
    Tallies ns ρ H es [n] :=
  of_below [] (by rw [Op.effect?_of_isPlain hop]; rfl) (h.mono And.left) (he.mono And.left)
    fun _ _ => Op.keeps_of_isPlain hop ρ

theorem effect {f : Effect} (h : Tallies ns ρ (H ∧ Fixes ρ [f]) es n.childNodes)
    (hop : n.op.effect? = some f) (he : n.env.Kept ns ρ (H ∧ Fixes ρ [f]))
    (hown : H → Fixes ρ [f] → n.op.Keeps ρ) : Tallies ns ρ H (f :: es) [n] :=
  of_below [f] (by rw [hop]; rfl) h
    (he.mono fun ⟨hH, hfix⟩ => ⟨hH, (fixes_append.mp hfix).1⟩)
    fun hH hfix => hown hH (fixes_append.mp hfix).1

theorem env_kept (h : Tallies ns ρ H es [n]) : n.env.Kept ns ρ (H ∧ Fixes ρ es) := by
  refine Env.kept_iff.mpr ⟨(Node.staysIn_iff.mp (h.staysIn n List.mem_cons_self)).1, fun hH => ?_⟩
  exact (Node.mapIds_eq_self_iff.mp (h.fixed hH.1 hH.2 n List.mem_cons_self)).2

theorem congr {m : Node} (h : Tallies ns ρ H es [n]) (hop : m.op = n.op)
    (he : m.env.Kept ns ρ (H ∧ Fixes ρ es)) : Tallies ns ρ H es [m] := by
  have hbelow : m.childNodes = n.childNodes := by
    unfold Node.childNodes Node.children
    rw [hop]
  have hn := Node.staysIn_iff.mp (h.staysIn n List.mem_cons_self)
  refine ⟨?_, List.forall_mem_singleton.mpr (Node.staysIn_iff.mpr ⟨he.1, hbelow ▸ hn.2⟩),
    fun hH hfix => List.forall_mem_singleton.mpr ?_⟩
  · rw [Node.effects_singleton, hop, hbelow, ← Node.effects_singleton]
    exact h.perm
  · obtain ⟨hnop, -⟩ := Node.mapIds_eq_self_iff.mp (h.fixed hH hfix n List.mem_cons_self)
    exact Node.mapIds_eq_self_iff.mpr ⟨hop ▸ hnop, (Env.kept_iff.mp he).2 ⟨hH, hfix⟩⟩

theorem accounts (h : Tallies ns ρ H es as) : Accounts ns (es.filterMap Effect.var?) as := by
  refine ⟨fun v => ?_, h.staysIn⟩
  have hvar : ∀ f : Effect, f.var? = some v ↔ f = .intern v := fun f => by
    cases f <;> simp [Effect.var?]
  simp only [List.mem_filterMap, hvar, exists_eq_right]
  rw [h.perm.mem_iff, Node.mem_effects_iff]

theorem loopIds (h : Tallies ns ρ H es [n]) : (es.filterMap Effect.id?).Perm n.loopIds := by
  rw [Node.loopIds_eq]
  exact h.perm.filterMap _

end Tallies

end LispFront
