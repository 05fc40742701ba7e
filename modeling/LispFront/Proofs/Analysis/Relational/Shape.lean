import LispFront.Proofs.Analysis.Relational.Correspondence
import LispFront.Proofs.Tree.Path

/-!
# Corresponding trees have the same shape

Corresponding operators have the same slots, and what stands at a place in a slot of one corresponds
to what stands at that place in the slot of the other. So one can go down both trees side by side.
-/

namespace LispFront

open List (Forall₂)

def SlotsAlike (R : Node → Node → Prop) (slots slots' : List (Slot × Child)) : Prop :=
  Forall₂ (fun c c' => c.1 = c'.1 ∧ Forall₂ R c.2.nodes c'.2.nodes) slots slots'

namespace SlotsAlike

variable {R S : Node → Node → Prop} {slot : Slot} {slots slots' : List (Slot × Child)}

theorem nil : SlotsAlike R [] [] := Forall₂.nil

theorem many {ns ns' : List Node} (h : Forall₂ R ns ns') (hs : SlotsAlike R slots slots') :
    SlotsAlike R ((slot, .many ns) :: slots) ((slot, .many ns') :: slots') :=
  Forall₂.cons ⟨rfl, h⟩ hs

theorem one {n n' : Node} (h : R n n') (hs : SlotsAlike R slots slots') :
    SlotsAlike R ((slot, .one n) :: slots) ((slot, .one n') :: slots') :=
  Forall₂.cons ⟨rfl, .cons h .nil⟩ hs

theorem append {slots₁ slots₁' : List (Slot × Child)} (h : SlotsAlike R slots slots')
    (h₁ : SlotsAlike R slots₁ slots₁') : SlotsAlike R (slots ++ slots₁) (slots' ++ slots₁') :=
  List.rel_append h h₁

theorem opt {o o' : Option Node} (h : Option.Rel R o o') :
    SlotsAlike R (slot.opt o) (slot.opt o') := by
  cases h with
  | none => exact nil
  | some hn => exact one hn nil

theorem refl (h : ∀ n, R n n) (slots : List (Slot × Child)) : SlotsAlike R slots slots :=
  List.forall₂_same.mpr fun _ _ => ⟨rfl, List.forall₂_same.mpr fun n _ => h n⟩

theorem mono (h : SlotsAlike R slots slots') (hRS : ∀ n n', R n n' → S n n') :
    SlotsAlike S slots slots' :=
  Forall₂.imp (fun _ _ hc => ⟨hc.1, hc.2.imp hRS⟩) h

theorem flip (h : SlotsAlike R slots slots') : SlotsAlike (fun n n' => R n' n) slots' slots :=
  Forall₂.flip (Forall₂.imp (fun _ _ hc => ⟨hc.1.symm, hc.2.flip⟩) h)

theorem holds {n n' m : Node} {i : Nat} (h : SlotsAlike R n.children n'.children)
    (hm : n.Holds slot i m) : ∃ m', n'.Holds slot i m' ∧ R m m' := by
  obtain ⟨c, hc, hi⟩ := hm
  obtain ⟨j, hj⟩ := List.mem_iff_getElem?.mp hc
  have hslot := related_getElem? h j
  rw [hj] at hslot
  generalize hj' : n'.children[j]? = child at hslot
  cases hslot with
  | @some _ c' hc' =>
    obtain ⟨slot', c'⟩ := c'
    obtain ⟨rfl, hnodes⟩ := hc'
    have hnode := related_getElem? hnodes i
    rw [hi] at hnode
    generalize hi' : c'.nodes[i]? = node at hnode
    cases hnode with
    | some hR => exact ⟨_, ⟨c', List.mem_of_getElem? hj', hi'⟩, hR⟩

end SlotsAlike

def Hop.place (h : Hop) : Slot × Nat := (h.slot, h.index)

/-- `m` is where one gets to by going to these places, one below the other. -/
def Node.At (n : Node) (places : List (Slot × Nat)) (m : Node) : Prop :=
  ∃ hops, n.Path hops m ∧ hops.map Hop.place = places

/-- What one gets to in the first tree, one gets to in the second by going to the same places. -/
theorem Node.At.alike {R : Node → Node → Prop}
    (hR : ∀ n n', R n n' → SlotsAlike R n.children n'.children) {n n' m : Node}
    {places : List (Slot × Nat)} (hm : n.At places m) (h : R n n') :
    ∃ m', n'.At places m' ∧ R m m' := by
  obtain ⟨hops, p, rfl⟩ := hm
  induction p generalizing n' with
  | here n => exact ⟨n', ⟨[], .here n', rfl⟩, h⟩
  | down hm _ ih =>
    obtain ⟨m', hm', hnode⟩ := (hR _ _ h).holds hm
    obtain ⟨r', ⟨hops', p', hplaces⟩, hr⟩ := ih hnode
    refine ⟨r', ⟨_, .down hm' p', ?_⟩, hr⟩
    rw [List.map_cons, List.map_cons, hplaces]
    rfl

section Ops

variable {C : Correspondence} {op op' : Op} (h : op.Like C op')
include h

theorem Op.Like.name_eq : op.name = op'.name := by
  cases h <;> rfl

theorem Op.Like.children : SlotsAlike C.node op.children op'.children := by
  cases h with
  | const _ hm => exact .opt hm
  | vector hxs => exact .many hxs .nil
  | map hks hvs => exact .many hks (.many hvs .nil)
  | set hxs => exact .many hxs .nil
  | localRef _ => exact .nil
  | varRef _ => exact .nil
  | theVar _ => exact .nil
  | hostForm _ _ => exact .nil
  | classRef _ => exact .nil
  | invoke hfn hargs _ => exact .one hfn (.many hargs .nil)
  | sequence _ hxs hret => exact .many hxs (.one hret .nil)
  | branch hx hy hz => exact .one hx (.one hy (.one hz .nil))
  | new hcls hargs => exact .one hcls (.many hargs .nil)
  | quote hx => exact .one hx .nil
  | assign hx hy => exact .one hx (.one hy .nil)
  | tryBlock hbody hcatches hcleanup => exact .one hbody (.many hcatches (.opt hcleanup))
  | handler hx hy hz => exact .one hx (.one hy (.one hz .nil))
  | throw hx => exact .one hx .nil
  | define _ _ hm hinit => exact .append (.opt hm) (.opt hinit)
  | hostCall _ hx hargs => exact .one hx (.many hargs .nil)
  | hostField _ hx => exact .one hx .nil
  | hostMember _ hx => exact .one hx .nil
  | letBlock hbs hbody => exact .many hbs (.one hbody .nil)
  | letfnBlock hbs hbody => exact .many hbs (.one hbody .nil)
  | loop _ hbs hbody => exact .many hbs (.one hbody .nil)
  | recur _ hxs => exact .many hxs .nil
  | fn _ _ _ hself hmethods => exact .append (.opt hself) (.many hmethods .nil)
  | method _ _ _ hparams hbody _ => exact .many hparams (.one hbody .nil)
  | binding hb => exact .opt hb.init
  | withMetadata hx hy => exact .one hx (.one hy .nil)
  | case _ _ _ _ htest hbranches hdefault _ =>
    exact .one htest (.many hbranches (.one hdefault .nil))
  | caseBranch hxs hbody => exact .many hxs (.one hbody .nil)

end Ops

end LispFront
