import LispFront.Proofs.Tree.Path
import Mathlib.Data.List.FinRange
import Mathlib.Data.List.Flatten

/-!
# Walking a tree

A walk keeps the nodes whose walks are still to come, and each step takes one of them and leaves what
is in its slots in its place. What it visits is the tree in preorder: every node once for each place
where it stands, above what is below it. A place is given by the slots and the numbers that lead
down to it.
-/

namespace LispFront

theorem flatMap_attach {α : Type u} {β : Type v} (l : List α) (f : α → List β) :
    l.attach.flatMap (fun a => f a.1) = l.flatMap f := by
  have hmap : (l.attach.map Subtype.val).flatMap f = l.attach.flatMap fun a => f a.1 :=
    List.flatMap_map Subtype.val f l.attach
  rw [← hmap, List.attach_map_subtype_val]

namespace Node

/-- The node, then what is below it: slot by slot, and in a slot from the first node to the last. -/
def preorder (n : Node) : List Node :=
  n :: n.children.attach.flatMap fun c => c.1.2.nodes.attach.flatMap fun m => preorder m.1
termination_by sizeOf n
decreasing_by exact sizeOf_lt_of_mem_childNodes (mem_childNodes c.2 m.2)

/-- The places in the tree, the root first, in the order of the slots and the nodes in them. -/
def places (n : Node) : List (List (Slot × Nat)) :=
  [] :: n.children.attach.flatMap fun c =>
    (List.finRange c.1.2.nodes.length).flatMap fun i =>
      (places c.1.2.nodes[i]).map ((c.1.1, i.val) :: ·)
termination_by sizeOf n
decreasing_by exact sizeOf_lt_of_mem_childNodes (mem_childNodes c.2 (List.getElem_mem i.2))

theorem preorder_eq (n : Node) :
    n.preorder = n :: n.children.flatMap fun c => c.2.nodes.flatMap preorder := by
  rw [preorder]
  simp only [flatMap_attach _ preorder]
  rw [flatMap_attach n.children fun c => c.2.nodes.flatMap preorder]

theorem preorder_childNodes (n : Node) : n.preorder = n :: n.childNodes.flatMap preorder := by
  rw [preorder_eq, childNodes, List.flatMap_assoc]

section Stack

theorem walkStack_cons (n : Node) (stack : List Node) :
    walkStack (n :: stack) = n :: walkStack (n.childNodes ++ stack) := by
  rw [walkStack]

/-- What a stack has still to come are the trees on it, from the top. -/
theorem walkStack_eq_flatMap_preorder (stack : List Node) :
    walkStack stack = stack.flatMap preorder := by
  induction stack using walkStack.induct with
  | case1 => simp [walkStack]
  | case2 n stack ih =>
    rw [walkStack_cons, ih, List.flatMap_append, List.flatMap_cons, preorder_childNodes n,
      List.cons_append]

theorem walkStack_append (as bs : List Node) :
    walkStack (as ++ bs) = walkStack as ++ walkStack bs := by
  simp only [walkStack_eq_flatMap_preorder, List.flatMap_append]

theorem walk_eq_preorder (n : Node) : n.walk = n.preorder := by
  rw [walk, walkStack_eq_flatMap_preorder, List.flatMap_singleton]

theorem walkStack_eq_flatMap (nodes : List Node) : walkStack nodes = nodes.flatMap walk := by
  rw [walkStack_eq_flatMap_preorder]
  exact List.flatMap_congr fun n _ => (walk_eq_preorder n).symm

end Stack

def placesIn (c : Slot × Child) : List (List (Slot × Nat)) :=
  (List.finRange c.2.nodes.length).flatMap fun i => c.2.nodes[i].places.map ((c.1, i.val) :: ·)

theorem places_eq (n : Node) : n.places = [] :: n.children.flatMap placesIn := by
  rw [places]
  exact congrArg _ (flatMap_attach n.children placesIn)

theorem mem_placesIn_iff {c : Slot × Child} {p : List (Slot × Nat)} :
    p ∈ placesIn c ↔ ∃ i m q, c.2.nodes[i]? = some m ∧ q ∈ m.places ∧ (c.1, i) :: q = p := by
  simp only [placesIn, List.mem_flatMap, List.mem_map, List.mem_finRange, true_and]
  constructor
  · rintro ⟨i, q, hq, rfl⟩
    exact ⟨i, _, q, List.getElem?_eq_getElem i.2, hq, rfl⟩
  · rintro ⟨i, m, q, hm, hq, rfl⟩
    obtain ⟨hi, rfl⟩ := List.getElem?_eq_some_iff.mp hm
    exact ⟨⟨i, hi⟩, q, hq, rfl⟩

theorem slots_nodup (n : Node) : (n.children.map Prod.fst).Nodup := by
  obtain ⟨op, form, env, raw⟩ := n
  cases op with
  | const _ _ metadata => cases metadata <;> simp [children, Op.children, Slot.opt]
  | tryBlock _ _ cleanup => cases cleanup <;> simp [children, Op.children, Slot.opt]
  | define _ _ metadata init =>
    cases metadata <;> cases init <;> simp [children, Op.children, Slot.opt]
  | fn self => cases self <;> simp [children, Op.children, Slot.opt]
  | binding b =>
    obtain ⟨_, _, init⟩ := b
    cases init <;> simp [children, Op.children, Slot.opt]
  | _ => simp [children, Op.children]

theorem find?_children {n : Node} {slot : Slot} {c : Child} (hc : (slot, c) ∈ n.children) :
    n.children.find? (·.1 == slot) = some (slot, c) := by
  have hne : n.children.Pairwise fun c c' => c.1 ≠ c'.1 := List.pairwise_map.mp n.slots_nodup
  generalize n.children = slots at hc hne
  induction slots with
  | nil => cases hc
  | cons c' slots ih =>
    obtain ⟨hne', hne⟩ := List.pairwise_cons.mp hne
    rcases List.mem_cons.mp hc with rfl | hc
    · simp
    · have hslot : (c'.1 == slot) = false := beq_eq_false_iff_ne.mpr (hne' _ hc)
      rw [List.find?_cons, hslot]
      exact ih hc hne

section Descent

variable {n m r : Node} {slot : Slot} {i : Nat} {hops : List Hop} {c : Child} {p : List (Slot × Nat)}

theorem descend?_cons (hc : (slot, c) ∈ n.children) (hm : c.nodes[i]? = some m) :
    n.descend? ((slot, i) :: p) =
      (m.descend? p).map fun (hops, r) => (⟨n, slot, i, m⟩ :: hops, r) := by
  simp only [descend?, find?_children hc, hm, Option.bind_eq_bind, Option.bind_some,
    Option.map_eq_bind]
  rfl

theorem descend?_cons_eq_some (h : n.descend? ((slot, i) :: p) = some (hops, r)) :
    ∃ c m hops', (slot, c) ∈ n.children ∧ c.nodes[i]? = some m ∧ m.descend? p = some (hops', r) ∧
      hops = ⟨n, slot, i, m⟩ :: hops' := by
  simp only [descend?, Option.bind_eq_bind, Option.bind_eq_some_iff] at h
  obtain ⟨⟨slot', c⟩, hc, m, hm, ⟨hops', r'⟩, hrest, hr⟩ := h
  cases hr
  obtain rfl : slot' = slot := by simpa using List.find?_some hc
  exact ⟨c, m, hops', List.mem_of_find?_eq_some hc, hm, hrest, rfl⟩

def placeOf (hops : List Hop) : List (Slot × Nat) := hops.map fun h => (h.slot, h.index)

theorem path_iff_descend? : n.Path hops r ↔ n.descend? (placeOf hops) = some (hops, r) := by
  refine ⟨fun h => ?_, path_of_descend? _⟩
  induction h with
  | here => rfl
  | @down n m r slot i hops hm _ ih =>
    obtain ⟨c, hc, hi⟩ := hm
    calc n.descend? (placeOf (⟨n, slot, i, m⟩ :: hops))
        = (m.descend? (placeOf hops)).map fun (hops, r) => (⟨n, slot, i, m⟩ :: hops, r) :=
          descend?_cons hc hi
      _ = some (⟨n, slot, i, m⟩ :: hops, r) := by rw [ih, Option.map_some]

theorem mem_places_iff : p ∈ n.places ↔ (n.descend? p).isSome := by
  induction p generalizing n with
  | nil => simp [places_eq, descend?]
  | cons place p ih =>
    obtain ⟨slot, i⟩ := place
    rw [places_eq, List.mem_cons, List.mem_flatMap]
    simp only [mem_placesIn_iff, reduceCtorEq, false_or]
    constructor
    · rintro ⟨⟨slot', c⟩, hc, i', m, q, hm, hq, hp⟩
      cases hp
      rw [descend?_cons hc hm, Option.isSome_map]
      exact ih.mp hq
    · intro h
      obtain ⟨⟨hops, r⟩, h⟩ := Option.isSome_iff_exists.mp h
      obtain ⟨c, m, hops', hc, hm, hrest, -⟩ := descend?_cons_eq_some h
      exact ⟨(slot, c), hc, i, m, p, hm, ih.mpr (Option.isSome_of_mem hrest), rfl⟩

theorem map_descend?_placesIn {c : Slot × Child} (hc : c ∈ n.children)
    (h : ∀ m ∈ c.2.nodes,
      m.places.map (fun p => (m.descend? p).map Prod.snd) = m.preorder.map some) :
    (placesIn c).map (fun p => (n.descend? p).map Prod.snd) =
      (c.2.nodes.flatMap preorder).map some := by
  have hnodes : c.2.nodes.flatMap preorder =
      (List.finRange c.2.nodes.length).flatMap fun i => c.2.nodes[i].preorder := by
    conv_lhs => rw [← List.map_getElem_finRange c.2.nodes, List.flatMap_map]
    rfl
  rw [hnodes, placesIn, List.map_flatMap, List.map_flatMap]
  refine List.flatMap_congr fun i _ => ?_
  rw [List.map_map, ← h c.2.nodes[i] (List.getElem_mem i.2)]
  refine List.map_congr_left fun p _ => ?_
  have hget : c.2.nodes[i.val]? = some c.2.nodes[i] := List.getElem?_eq_getElem i.2
  change (n.descend? ((c.1, i.val) :: p)).map Prod.snd = _
  rw [descend?_cons hc hget, Option.map_map]
  rfl

theorem map_descend?_places (n : Node) :
    n.places.map (fun p => (n.descend? p).map Prod.snd) = n.preorder.map some := by
  induction n using preorder.induct with
  | case1 n ih =>
    rw [places_eq, preorder_eq, List.map_cons, List.map_cons, List.map_flatMap, List.map_flatMap]
    refine congrArg₂ List.cons rfl (List.flatMap_congr fun c hc => ?_)
    exact map_descend?_placesIn hc fun m hm => ih ⟨c, hc⟩ ⟨m, hm⟩

end Descent

section Pairwise

variable {c c' : Slot × Child} {p q : List (Slot × Nat)}

theorem not_prefix_of_slots (hc : c.1 ≠ c'.1) (hp : p ∈ placesIn c) (hq : q ∈ placesIn c') :
    ¬q <+: p := by
  obtain ⟨i, _, p, -, -, rfl⟩ := mem_placesIn_iff.mp hp
  obtain ⟨j, _, q, -, -, rfl⟩ := mem_placesIn_iff.mp hq
  intro h
  exact hc (congrArg Prod.fst (List.cons_prefix_cons.mp h).1).symm

theorem pairwise_placesIn (h : ∀ m ∈ c.2.nodes, m.places.Pairwise fun p q => ¬q <+: p) :
    (placesIn c).Pairwise fun p q => ¬q <+: p := by
  rw [placesIn, List.pairwise_flatMap]
  constructor
  · intro i _
    rw [List.pairwise_map]
    refine (h c.2.nodes[i] (List.getElem_mem i.2)).imp fun hne hprefix => hne ?_
    exact (List.cons_prefix_cons.mp hprefix).2
  · refine (List.nodup_finRange _).imp fun {i j} hij p hp q hq hprefix => ?_
    obtain ⟨p, -, rfl⟩ := List.mem_map.mp hp
    obtain ⟨q, -, rfl⟩ := List.mem_map.mp hq
    have hplace := (List.cons_prefix_cons.mp hprefix).1
    exact hij (Fin.ext (congrArg Prod.snd hplace).symm)

theorem pairwise_places (n : Node) : n.places.Pairwise fun p q => ¬q <+: p := by
  induction n using preorder.induct with
  | case1 n ih =>
    rw [places_eq, List.pairwise_cons, List.pairwise_flatMap]
    refine ⟨fun q hq hprefix => ?_, fun c hc => ?_, ?_⟩
    · obtain ⟨c, -, hq⟩ := List.mem_flatMap.mp hq
      obtain ⟨i, _, q, -, -, rfl⟩ := mem_placesIn_iff.mp hq
      simp at hprefix
    · exact pairwise_placesIn fun m hm => ih ⟨c, hc⟩ ⟨m, hm⟩
    · exact (List.pairwise_map.mp n.slots_nodup).imp fun hc p hp q hq =>
        not_prefix_of_slots hc hp hq

end Pairwise

end Node

/-- A walk under way: the trees that are still to be walked, the next one last. -/
structure Walk where
  stack : List Node

namespace Walk

def start (n : Node) : Walk := ⟨[n]⟩

/-- Visits the last node and leaves what is in its slots in its place, the first of it last. -/
def next? (w : Walk) : Option (Node × Walk) :=
  w.stack.getLast?.map fun n => (n, ⟨w.stack.dropLast ++ n.childNodes.reverse⟩)

def steps (w : Walk) : Nat → List Node × Walk
  | 0 => ([], w)
  | k + 1 =>
    match w.next? with
    | none => ([], w)
    | some (n, w') => (n :: (w'.steps k).1, (w'.steps k).2)

def toCome (w : Walk) : List Node := w.stack.reverse.flatMap Node.preorder

variable {w w' : Walk} {n : Node}

theorem toCome_of_next?_eq_none (h : w.next? = none) : w.toCome = [] := by
  have hstack : w.stack = [] := by simpa [next?] using h
  rw [toCome, hstack]
  rfl

theorem toCome_of_next?_eq_some (h : w.next? = some (n, w')) : w.toCome = n :: w'.toCome := by
  obtain ⟨m, hm, hw⟩ := Option.map_eq_some_iff.mp h
  obtain ⟨rfl, rfl⟩ := Prod.mk.inj hw
  obtain ⟨stack, hstack⟩ := List.getLast?_eq_some_iff.mp hm
  rw [toCome, toCome, hstack]
  simp [Node.preorder_childNodes m]

theorem next?_eq_none_iff : w.next? = none ↔ w.toCome = [] := by
  refine ⟨toCome_of_next?_eq_none, fun h => ?_⟩
  cases hw : w.next? with
  | none => rfl
  | some step =>
    rw [toCome_of_next?_eq_some hw] at h
    cases h

theorem steps_spec (w : Walk) (k : Nat) :
    (w.steps k).1 = w.toCome.take k ∧ (w.steps k).2.toCome = w.toCome.drop k := by
  induction k generalizing w with
  | zero => simp [steps]
  | succ k ih =>
    cases hw : w.next? with
    | none => simp [steps, hw, toCome_of_next?_eq_none hw]
    | some step =>
      obtain ⟨n, w'⟩ := step
      obtain ⟨hvisited, hrest⟩ := ih w'
      simp [steps, hw, toCome_of_next?_eq_some hw, hvisited, hrest]

theorem toCome_start (n : Node) : (start n).toCome = n.preorder := List.flatMap_singleton ..

end Walk

open Node in
/-- A walk visits the tree in preorder, step by step, and ends after as many steps as there are
places in the tree. What it visits is what stands at the places, one after the other; the places are
those that paths lead to, none is listed twice, and none before one further up. -/
theorem walked_in_preorder (n : Node) :
    n.walk = n.preorder ∧
    (∀ k, ((Walk.start n).steps k).1 = n.preorder.take k ∧
      (((Walk.start n).steps k).2.next? = none ↔ n.places.length ≤ k)) ∧
    n.places.map (fun p => (n.descend? p).map Prod.snd) = n.preorder.map some ∧
    (∀ p, p ∈ n.places ↔ (n.descend? p).isSome) ∧
    (∀ hops m, n.Path hops m ↔ n.descend? (placeOf hops) = some (hops, m)) ∧
    n.places.Pairwise fun p q => ¬q <+: p := by
  have hlength : n.places.length = n.preorder.length := by
    simpa using congrArg List.length n.map_descend?_places
  refine ⟨walk_eq_preorder n, fun k => ?_, map_descend?_places n, fun _ => mem_places_iff,
    fun _ _ => path_iff_descend?, pairwise_places n⟩
  obtain ⟨hvisited, hrest⟩ := (Walk.start n).steps_spec k
  rw [Walk.toCome_start] at hvisited hrest
  refine ⟨hvisited, ?_⟩
  rw [Walk.next?_eq_none_iff, hrest, List.drop_eq_nil_iff, hlength]

end LispFront
