import LispFront.Tree.Children

/-!
# Paths down a tree

A hop goes from a node to one of the nodes in its slots, a path is a list of hops. What a `recur`
goes back to is read off the path to it: the loop or the method that the innermost such hop leaves.
-/

namespace LispFront

structure Hop where
  parent : Node
  slot : Slot
  /-- The place among the nodes of the slot. -/
  index : Nat
  child : Node

def Node.Holds (n : Node) (slot : Slot) (i : Nat) (m : Node) : Prop :=
  ∃ c, (slot, c) ∈ n.children ∧ c.nodes[i]? = some m

theorem Node.Holds.mem {n m : Node} {slot : Slot} {i : Nat} {ms : List Node}
    (h : n.Holds slot i m) (hslot : ∀ c, (slot, c) ∈ n.children → c = .many ms) : m ∈ ms := by
  obtain ⟨c, hc, hi⟩ := h
  rw [hslot c hc] at hi
  exact List.mem_of_getElem? hi

def InSlots (p : Slot → Node → Prop) (slots : List (Slot × Child)) : Prop :=
  ∀ slot c, (slot, c) ∈ slots → ∀ m ∈ c.nodes, p slot m

namespace InSlots

variable {p : Slot → Node → Prop} {slot : Slot} {slots slots' : List (Slot × Child)}

theorem nil : InSlots p [] := nofun

theorem append (h : InSlots p slots) (h' : InSlots p slots') : InSlots p (slots ++ slots') :=
  fun slot c hc => (List.mem_append.mp hc).elim (h slot c) (h' slot c)

theorem many {ns : List Node} (h : ∀ n ∈ ns, p slot n) (hs : InSlots p slots) :
    InSlots p ((slot, .many ns) :: slots) := by
  intro slot' c hc
  cases hc with
  | head => exact h
  | tail _ hc => exact hs slot' c hc

theorem one {n : Node} (h : p slot n) (hs : InSlots p slots) :
    InSlots p ((slot, .one n) :: slots) := by
  intro slot' c hc
  cases hc with
  | head => simpa [Child.nodes] using h
  | tail _ hc => exact hs slot' c hc

theorem opt {o : Option Node} (h : ∀ n ∈ o, p slot n) : InSlots p (slot.opt o) := by
  cases o with
  | none => exact nil
  | some n => exact one (h n rfl) nil

theorem holds {n m : Node} {i : Nat} (h : InSlots p n.children) (hm : n.Holds slot i m) :
    p slot m := by
  obtain ⟨c, hc, hi⟩ := hm
  exact h slot c hc m (List.mem_of_getElem? hi)

end InSlots

inductive Node.Path : Node → List Hop → Node → Prop where
  | here (n : Node) : Path n [] n
  | down {n m r : Node} {slot : Slot} {i : Nat} {hops : List Hop} :
      n.Holds slot i m → Path m hops r → Path n (⟨n, slot, i, m⟩ :: hops) r

def Node.descend? : Node → List (Slot × Nat) → Option (List Hop × Node)
  | n, [] => some ([], n)
  | n, (slot, i) :: places => do
    let c ← n.children.find? (·.1 == slot)
    let m ← c.2.nodes[i]?
    let (hops, r) ← m.descend? places
    return (⟨n, slot, i, m⟩ :: hops, r)

theorem Node.path_of_descend? (places : List (Slot × Nat)) {n r : Node} {hops : List Hop}
    (h : n.descend? places = some (hops, r)) : n.Path hops r := by
  induction places generalizing n hops with
  | nil =>
    cases h
    exact .here _
  | cons place places ih =>
    obtain ⟨slot, i⟩ := place
    simp only [Node.descend?, Option.bind_eq_bind, Option.bind_eq_some_iff] at h
    obtain ⟨⟨slot', c⟩, hc, m, hm, ⟨hops', r'⟩, hrest, hr⟩ := h
    cases hr
    obtain rfl : slot' = slot := by simpa using List.find?_some hc
    exact .down ⟨c, List.mem_of_find?_eq_some hc, hm⟩ (ih hrest)

namespace Op

def recurPoint? : Op → Option (Symbol × Nat)
  | .loop id bindings _ => some (id, bindings.length)
  | .method id params .. => some (id, params.length)
  | _ => none

def isTry : Op → Bool
  | .tryBlock .. => true
  | _ => false

def isMethod : Op → Bool
  | .method .. => true
  | _ => false

def isCaseBranch : Op → Bool
  | .caseBranch .. => true
  | _ => false

end Op

/-- The innermost hop out of a loop or a method, and the hops below it. -/
def recurTarget? : List Hop → Option (Hop × List Hop)
  | [] => none
  | h :: hops =>
    match recurTarget? hops with
    | some target => some target
    | none => if h.parent.op.recurPoint?.isSome then some (h, hops) else none

namespace Hop

/-- Holds of hops to what gives the value of the node, with nothing done to it. -/
def isTail (h : Hop) : Bool :=
  match h.parent.op, h.slot with
  | .sequence .., .ret => true
  | .branch .., .then => true
  | .branch .., .els => true
  | .letBlock .., .body => true
  | .letfnBlock .., .body => true
  | .case .., .nodes => h.child.op.isCaseBranch
  | .case .., .default => true
  | .caseBranch .., .then => true
  | _, _ => false

def isClassOfNew (h : Hop) : Bool :=
  match h.parent.op, h.slot with
  | .new .., .cls => true
  | _, _ => false

def keepsContext (h : Hop) : Bool := h.isTail || h.isClassOfNew

theorem not_isTail_of_isClassOfNew {h : Hop} (hn : h.isClassOfNew) : h.isTail = false := by
  obtain ⟨⟨op, form, env, raw⟩, slot, index, child⟩ := h
  cases op <;> first | rfl | cases hn

theorem not_isTry_of_keepsContext {h : Hop} (hk : h.keepsContext) : h.parent.op.isTry = false := by
  obtain ⟨⟨op, form, env, raw⟩, slot, index, child⟩ := h
  cases op <;> first | rfl | cases hk

theorem isTail_iff_of_keepsContext {h : Hop} (hk : h.keepsContext) :
    h.isTail ↔ ¬h.isClassOfNew := by
  by_cases hn : h.isClassOfNew
  · simp [hn, not_isTail_of_isClassOfNew hn]
  · have ht : h.isTail := by simpa [keepsContext, hn] using hk
    simp [hn, ht]

end Hop

/-- The node at the end of the path gives the value of the loop or method around it. -/
def TailPosition (hops : List Hop) : Prop :=
  ∃ target below, recurTarget? hops = some (target, below) ∧ target.slot = .body ∧
    ∀ k ∈ below, k.isTail

theorem tailPosition_iff {hops below : List Hop} {target : Hop}
    (h : recurTarget? hops = some (target, below)) :
    TailPosition hops ↔ target.slot = .body ∧ ∀ k ∈ below, k.isTail := by
  constructor
  · rintro ⟨target', below', h', hslot, hbelow⟩
    rw [h] at h'
    cases h'
    exact ⟨hslot, hbelow⟩
  · rintro ⟨hslot, hbelow⟩
    exact ⟨target, below, h, hslot, hbelow⟩

theorem recurTarget?_cons_of_some {h : Hop} {hops : List Hop} {t : Hop × List Hop}
    (ht : recurTarget? hops = some t) : recurTarget? (h :: hops) = some t := by
  simp [recurTarget?, ht]

theorem recurTarget?_cons_of_none {h : Hop} {hops : List Hop} (ht : recurTarget? hops = none) :
    recurTarget? (h :: hops) =
      if h.parent.op.recurPoint?.isSome then some (h, hops) else none := by
  simp [recurTarget?, ht]

theorem recurTarget?_eq_none_iff {hops : List Hop} :
    recurTarget? hops = none ↔ ∀ k ∈ hops, k.parent.op.recurPoint? = none := by
  induction hops with
  | nil => simp [recurTarget?]
  | cons h hops ih =>
    cases ht : recurTarget? hops with
    | some t =>
      rw [recurTarget?_cons_of_some ht, List.forall_mem_cons, ← ih, ht]
      simp
    | none =>
      rw [recurTarget?_cons_of_none ht, List.forall_mem_cons, ← ih, ht]
      cases h.parent.op.recurPoint? <;> simp

theorem recurTarget?_eq_some_iff {hops below : List Hop} {target : Hop} :
    recurTarget? hops = some (target, below) ↔
      (∃ above, hops = above ++ target :: below) ∧ target.parent.op.recurPoint?.isSome ∧
        ∀ k ∈ below, k.parent.op.recurPoint? = none := by
  constructor
  · intro h
    induction hops with
    | nil => cases h
    | cons k hops ih =>
      cases ht : recurTarget? hops with
      | some t =>
        rw [recurTarget?_cons_of_some ht] at h
        obtain ⟨⟨above, rfl⟩, hrest⟩ := ih (ht.trans h)
        exact ⟨⟨k :: above, rfl⟩, hrest⟩
      | none =>
        rw [recurTarget?_cons_of_none ht] at h
        split at h
        · rename_i hk
          cases h
          exact ⟨⟨[], rfl⟩, hk, recurTarget?_eq_none_iff.mp ht⟩
        · cases h
  · rintro ⟨⟨above, rfl⟩, htarget, hbelow⟩
    induction above with
    | nil =>
      have hnone := recurTarget?_eq_none_iff.mpr hbelow
      rw [List.nil_append, recurTarget?_cons_of_none hnone, if_pos htarget]
    | cons k above ih => exact recurTarget?_cons_of_some ih

theorem Node.Path.recurPoint?_eq_none {n r : Node} {hops : List Hop} {id : Symbol}
    {exprs : List Node} (p : n.Path hops r) (hr : r.op = .recur id exprs)
    (h : recurTarget? hops = none) : n.op.recurPoint? = none := by
  cases p with
  | here => rw [hr]; rfl
  | down hm p => exact recurTarget?_eq_none_iff.mp h _ List.mem_cons_self

end LispFront
