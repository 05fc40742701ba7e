import LispFront.Form.Print
import LispFront.Proofs.Form.Source

/-!
# Maps and sets listed in any order

A map is given by its entries in whatever order, no key occurring twice, and a set by its elements.
Sorting brings every listing of one collection to the same list, the collection itself, so comparing
sorted entries compares collections: the outcome is equality exactly if both have the same size and
every entry of one has an equal one in the other.
-/

namespace LispFront

open Std

namespace Form

variable {a b : Form}

theorem cmp_eq_iff_beq : a.cmp b = .eq ↔ a == b := cmp_eq_iff_bare.trans beq_iff_bare.symm

theorem cmp_congr (h : a == b) (c : Form) : a.cmp c = b.cmp c := by
  rw [← cmp_bare, beq_iff_bare.mp h, cmp_bare]

theorem beq_congr (h : a == b) (c : Form) : (a == c) = (b == c) := by
  rw [← cmp_beq_eq, cmp_congr h, cmp_beq_eq]

theorem text_congr (h : a == b) : a.text = b.text := by
  rw [← text_bare a, beq_iff_bare.mp h, text_bare]

instance : TransCmp cmpEntry :=
  transCmp_of_chained
    (fun e e' => by rw [cmpEntry, cmp_swap e.1, cmp_swap e.2, ← Ordering.swap_then, cmpEntry])
    fun e e' e'' => chained_then (cmp_chained e.1 e'.1 e''.1) (cmp_chained e.2 e'.2 e''.2)

theorem bareElems_insert (s : FormSet) (a : Form) :
    bareElems (s.insert a) = FormSet.insert (bareElems s) a.bare := by
  rw [bareElems_eq, bareElems_eq]
  exact (Sorted.insert_map cmp_bare a s).symm

theorem bareEntries_insert (m : FormMap) (k v : Form) :
    bareEntries (m.insert k v) = FormMap.insert (bareEntries m) k.bare v.bare := by
  rw [bareEntries_eq, bareEntries_eq]
  exact (Sorted.insert_map (fun e e' => cmp_bare e.1 e'.1) (k, v) m).symm

end Form

namespace FormMap

variable {l l' : List (Form × Form)} {m n : FormMap}

def Listing (l : List (Form × Form)) : Prop := l.Pairwise fun e e' => ¬e.1 == e'.1

def sorted (l : List (Form × Form)) : List (Form × Form) :=
  l.mergeSort fun e e' => (Form.cmpEntry e e').isLE

/-- Equality by look-up: as many entries, and an equal one for each. -/
def Agrees (l l' : List (Form × Form)) : Prop :=
  l.length = l'.length ∧ ∀ e ∈ l, ∃ e' ∈ l', e.1 == e'.1 ∧ e.2 == e'.2

/-- The map holds the listed entries, and sorting them gives the map. -/
structure Represents (m : FormMap) (l : List (Form × Form)) : Prop where
  perm : m.Perm l
  increasing : m.Increasing
  sorted : sorted l = m
  find? (k v : Form) : m.find? k = some v ↔ ∃ e ∈ l, k == e.1 ∧ e.2 = v

theorem Listing.distinct (h : Listing l) : Sorted.Distinct (fun e e' => e.1.cmp e'.1) l :=
  h.imp fun hne heq => hne (Form.cmp_eq_iff_beq.mp heq)

theorem sorted_eq (h : Listing l) (hl : l'.Perm l) : sorted l' = ofList l := by
  refine Sorted.eq_ofList h.distinct ((List.mergeSort_perm l' _).trans hl) ?_
  refine (Sorted.pairwise_mergeSort Form.cmpEntry l').imp fun {e e'} hle hgt => ?_
  simp [Form.cmpEntry, hgt] at hle

theorem find?_ofList (es : List (Form × Form)) (k : Form) :
    (ofList es).find? k = (es.reverse.find? (k == ·.1)).map (·.2) := by
  have hlast := Sorted.find?_insertMany Form.cmp Prod.fst k es []
  simp only [Form.cmp_beq_eq, Sorted.find?_nil, Option.or_none] at hlast
  exact congrArg (Option.map Prod.snd) hlast

theorem find?_eq_some_iff (hm : m.Increasing) {k v : Form} :
    m.find? k = some v ↔ ∃ e ∈ m, k == e.1 ∧ e.2 = v := by
  constructor
  · intro h
    obtain ⟨e, he, rfl⟩ := Option.map_eq_some_iff.mp h
    obtain ⟨hmem, hk⟩ := Sorted.of_find? he
    exact ⟨e, hmem, Form.cmp_eq_iff_beq.mp hk, rfl⟩
  · rintro ⟨e, he, hk, rfl⟩
    have hfind := Sorted.find?_of_mem Form.cmp Prod.fst hm he (Form.cmp_eq_iff_beq.mpr hk)
    exact Option.map_eq_some_iff.mpr ⟨e, hfind, rfl⟩

theorem represents_ofList (h : Listing l) (hl : l'.Perm l) : (ofList l).Represents l' where
  perm := (Sorted.ofList_perm h.distinct).trans hl.symm
  increasing := Sorted.ofList_increasing l
  sorted := sorted_eq h hl
  find? k v := by
    have hperm : (ofList l).Perm l' := (Sorted.ofList_perm h.distinct).trans hl.symm
    have hincr : (ofList l).Increasing := Sorted.ofList_increasing l
    simp only [find?_eq_some_iff hincr, hperm.mem_iff]

theorem agrees_congr {k k' : List (Form × Form)} (h : l.Perm l') (hk : k.Perm k') :
    Agrees l k ↔ Agrees l' k' := by
  simp only [Agrees, h.length_eq, hk.length_eq, h.mem_iff, hk.mem_iff]

theorem beq_iff_agrees (hm : m.Increasing) (hn : n.Increasing) : m.beq n ↔ Agrees m n := by
  have hbeq : m.beq n ↔ Form.bareEntries m = Form.bareEntries n :=
    Form.beqEntries_iff fun _ _ => ⟨fun _ => Form.beq_iff_bare, fun _ => Form.beq_iff_bare⟩
  rw [hbeq]
  constructor
  · intro h
    rw [Form.bareEntries_eq, Form.bareEntries_eq] at h
    refine ⟨by simpa using congrArg List.length h, fun e he => ?_⟩
    have hmem : (e.1.bare, e.2.bare) ∈ n.map fun e => (e.1.bare, e.2.bare) :=
      h ▸ List.mem_map_of_mem he
    obtain ⟨e', he', heq⟩ := List.mem_map.mp hmem
    obtain ⟨hk, hv⟩ := Prod.mk.injEq .. ▸ heq.symm
    exact ⟨e', he', Form.beq_iff_bare.mpr hk, Form.beq_iff_bare.mpr hv⟩
  · rintro ⟨hlen, h⟩
    refine Sorted.eq_of_subset (Form.increasing_bareEntries.mpr hm)
      (Form.increasing_bareEntries.mpr hn) ?_ ?_
    · simp [Form.bareEntries_eq, hlen]
    · rw [Form.bareEntries_eq, Form.bareEntries_eq]
      intro x hx
      obtain ⟨e, he, rfl⟩ := List.mem_map.mp hx
      obtain ⟨e', he', hk, hv⟩ := h e he
      exact List.mem_map.mpr
        ⟨e', he', Prod.ext (Form.beq_iff_bare.mp hk).symm (Form.beq_iff_bare.mp hv).symm⟩

theorem sorted_beq_iff (h : Listing l) (h' : Listing l') :
    FormMap.beq (sorted l) (sorted l') ↔ Agrees l l' := by
  have hl := represents_ofList h (.refl l)
  have hl' := represents_ofList h' (.refl l')
  rw [hl.sorted, hl'.sorted, beq_iff_agrees hl.increasing hl'.increasing]
  exact agrees_congr hl.perm hl'.perm

end FormMap

namespace FormSet

variable {l l' : List Form} {s t : FormSet}

def Listing (l : List Form) : Prop := l.Pairwise fun a b => ¬a == b

def sorted (l : List Form) : List Form := l.mergeSort fun a b => (a.cmp b).isLE

def Agrees (l l' : List Form) : Prop := l.length = l'.length ∧ ∀ a ∈ l, ∃ b ∈ l', a == b

structure Represents (s : FormSet) (l : List Form) : Prop where
  perm : s.Perm l
  increasing : Sorted.Increasing Form.cmp s
  sorted : sorted l = s
  contains (a : Form) : s.contains a ↔ ∃ b ∈ l, a == b

theorem Listing.distinct (h : Listing l) : Sorted.Distinct Form.cmp l :=
  h.imp fun hne heq => hne (Form.cmp_eq_iff_beq.mp heq)

theorem sorted_eq (h : Listing l) (hl : l'.Perm l) : sorted l' = ofList l := by
  refine Sorted.eq_ofList h.distinct ((List.mergeSort_perm l' _).trans hl) ?_
  exact (Sorted.pairwise_mergeSort Form.cmp l').imp fun hle => Ordering.ne_gt_iff_isLE.mpr hle

theorem find?_ofList (es : List Form) (a : Form) :
    Sorted.find? a.cmp (ofList es) = es.reverse.find? (a == ·) := by
  have hlast := Sorted.find?_insertMany Form.cmp id a es []
  simp only [id, Form.cmp_beq_eq, Sorted.find?_nil, Option.or_none] at hlast
  exact hlast

theorem contains_iff (hs : Sorted.Increasing Form.cmp s) {a : Form} :
    s.contains a ↔ ∃ b ∈ s, a == b := by
  constructor
  · intro h
    obtain ⟨b, hb⟩ := Option.isSome_iff_exists.mp h
    obtain ⟨hmem, hab⟩ := Sorted.of_find? hb
    exact ⟨b, hmem, Form.cmp_eq_iff_beq.mp hab⟩
  · rintro ⟨b, hb, hab⟩
    have hfind := Sorted.find?_of_mem Form.cmp id hs hb (Form.cmp_eq_iff_beq.mpr hab)
    exact Option.isSome_iff_exists.mpr ⟨b, hfind⟩

theorem represents_ofList (h : Listing l) (hl : l'.Perm l) : (ofList l).Represents l' where
  perm := (Sorted.ofList_perm h.distinct).trans hl.symm
  increasing := Sorted.ofList_increasing l
  sorted := sorted_eq h hl
  contains a := by
    have hperm : (ofList l).Perm l' := (Sorted.ofList_perm h.distinct).trans hl.symm
    have hincr : Sorted.Increasing Form.cmp (ofList l) := Sorted.ofList_increasing l
    simp only [contains_iff hincr, hperm.mem_iff]

theorem agrees_congr {k k' : List Form} (h : l.Perm l') (hk : k.Perm k') :
    Agrees l k ↔ Agrees l' k' := by
  simp only [Agrees, h.length_eq, hk.length_eq, h.mem_iff, hk.mem_iff]

theorem beq_iff_agrees (hs : Sorted.Increasing Form.cmp s) (ht : Sorted.Increasing Form.cmp t) :
    s.beq t ↔ Agrees s t := by
  have hbeq : s.beq t ↔ Form.bareElems s = Form.bareElems t :=
    Form.beqElems_iff fun _ _ _ => Form.beq_iff_bare
  rw [hbeq, Form.bareElems_eq, Form.bareElems_eq]
  constructor
  · intro h
    refine ⟨by simpa using congrArg List.length h, fun a ha => ?_⟩
    have hmem : a.bare ∈ t.map Form.bare := h ▸ List.mem_map_of_mem ha
    obtain ⟨b, hb, hab⟩ := List.mem_map.mp hmem
    exact ⟨b, hb, Form.beq_iff_bare.mpr hab.symm⟩
  · rintro ⟨hlen, h⟩
    refine Sorted.eq_of_subset (Form.increasing_bare.mpr hs) (Form.increasing_bare.mpr ht) ?_ ?_
    · simp [hlen]
    · intro x hx
      obtain ⟨a, ha, rfl⟩ := List.mem_map.mp hx
      obtain ⟨b, hb, hab⟩ := h a ha
      exact List.mem_map.mpr ⟨b, hb, (Form.beq_iff_bare.mp hab).symm⟩

theorem sorted_beq_iff (h : Listing l) (h' : Listing l') :
    FormSet.beq (sorted l) (sorted l') ↔ Agrees l l' := by
  have hl := represents_ofList h (.refl l)
  have hl' := represents_ofList h' (.refl l')
  rw [hl.sorted, hl'.sorted, beq_iff_agrees hl.increasing hl'.increasing]
  exact agrees_congr hl.perm hl'.perm

end FormSet

end LispFront
