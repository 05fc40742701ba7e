import LispFront.Proofs.Form.Listing
import LispFront.Proofs.Related
import Mathlib.Data.List.TFAE
import Mathlib.Data.Set.Card

/-!
# What the history of a map or a set says about it

A map that was empty at first is determined by the edits made to it: for each key the last edit of
an equal key counts, and a key is stored as that edit gives it, metadata included. A set is
determined in the same way by the elements put into it. So two of them are equal, by any of the ways
to compare them, exactly if look-up tells no difference.
-/

namespace LispFront

open List (Forall₂)

namespace Form

theorem ncard_bare {l : List Form} (h : FormSet.Listing l) :
    {c : Form | ∃ a, (∃ b ∈ l, a == b) ∧ a.bare = c}.ncard = l.length := by
  classical
  have hset : {c : Form | ∃ a, (∃ b ∈ l, a == b) ∧ a.bare = c} = ↑(l.map bare).toFinset := by
    ext c
    rw [List.coe_toFinset]
    change (∃ a, (∃ b ∈ l, a == b) ∧ a.bare = c) ↔ c ∈ l.map bare
    constructor
    · rintro ⟨a, ⟨b, hb, hab⟩, rfl⟩
      exact List.mem_map.mpr ⟨b, hb, (beq_iff_bare.mp hab).symm⟩
    · intro hc
      obtain ⟨b, hb, rfl⟩ := List.mem_map.mp hc
      exact ⟨b, ⟨b, hb, beq_iff_bare.mpr rfl⟩, rfl⟩
  have hnodup : (l.map bare).Nodup :=
    List.pairwise_map.mpr (h.imp fun hne heq => hne (beq_iff_bare.mpr heq))
  rw [hset, Set.ncard_coe_finset, List.toFinset_card_of_nodup hnodup, List.length_map]

theorem cmp_congr_right {a b : Form} (h : a == b) (c : Form) : c.cmp a = c.cmp b := by
  rw [cmp_swap c a, cmp_swap c b, cmp_congr h]

end Form

namespace FormMap

inductive Edit where
  | assoc (k v : Form)
  | dissoc (k : Form)

namespace Edit

def key : Edit → Form
  | .assoc k _ => k
  | .dissoc k => k

def leaves? : Edit → Option (Form × Form)
  | .assoc k v => some (k, v)
  | .dissoc _ => none

end Edit

def edit (m : FormMap) : Edit → FormMap
  | .assoc k v => m.insert k v
  | .dissoc k => m.erase k

def run (m : FormMap) (edits : List Edit) : FormMap := edits.foldl edit m

def last? (edits : List Edit) (k : Form) : Option Edit := edits.reverse.find? (k == ·.key)

def stored? (m : FormMap) (k : Form) : Option (Form × Form) := Sorted.find? (fun e => k.cmp e.1) m

/-- What the edits say of the map: the last edit of a key, or of one equal to it, tells if there is an
entry and which. The size is the number of keys that differ, and the entries in any order are sorted
to the map. -/
structure Shows (m : FormMap) (edits : List Edit) : Prop where
  contains_iff (k : Form) : m.contains k ↔ ∃ k' v, last? edits k = some (.assoc k' v)
  stored_iff (k k' v : Form) : (k', v) ∈ m ∧ k == k' ↔ last? edits k = some (.assoc k' v)
  find?_iff (k v : Form) : m.find? k = some v ↔ ∃ k', last? edits k = some (.assoc k' v)
  size : m.length = {c : Form | ∃ k, m.contains k ∧ k.bare = c}.ncard
  represents (l : List (Form × Form)) : l.Perm m → m.Represents l

/-- The maps are equal or different in whatever way they are compared: by equality, by the order, by
their entries in no order, by look-up, or by their sorted entries, one by one. -/
def ComparesAlike (m n : FormMap) : Prop :=
  List.TFAE [m.beq n = true, m.cmp n = .eq, Agrees m n,
    ∀ k, Option.Rel (· == ·) (m.find? k) (n.find? k),
    Forall₂ (fun e e' => e.1 == e'.1 ∧ e.2 == e'.2) m n]

variable {m n : FormMap} {k : Form}

theorem last?_cons (e : Edit) (edits : List Edit) (k : Form) :
    last? (e :: edits) k = (last? edits k).or (if k == e.key then some e else none) := by
  unfold last?
  rw [List.reverse_cons, List.find?_append]
  congr 1
  cases h : k == e.key <;> simp [h]

theorem stored?_edit (hm : m.Increasing) (e : Edit) (k : Form) :
    (m.edit e).stored? k = if k == e.key then e.leaves? else m.stored? k := by
  rw [← Form.cmp_beq_eq]
  simp only [beq_iff_eq]
  cases e with
  | assoc k' v => exact Sorted.find?_insert Form.cmp Prod.fst k (k', v) m
  | dissoc k' => exact Sorted.find?_erase Form.cmp Prod.fst hm

theorem edit_increasing (hm : m.Increasing) (e : Edit) : (m.edit e).Increasing := by
  cases e with
  | assoc k v => exact Sorted.insert_increasing (k, v) hm
  | dissoc k => exact Sorted.erase_increasing _ hm

theorem run_increasing (hm : m.Increasing) (edits : List Edit) : (m.run edits).Increasing := by
  induction edits generalizing m with
  | nil => exact hm
  | cons e edits ih => exact ih (edit_increasing hm e)

/-- After a run of edits, the last edit of a key says what stands there, and without one what stood
there before. -/
theorem stored?_run (hm : m.Increasing) (edits : List Edit) (k : Form) :
    (m.run edits).stored? k = (last? edits k).elim (m.stored? k) Edit.leaves? := by
  induction edits generalizing m with
  | nil => rfl
  | cons e edits ih =>
    have hrest := ih (edit_increasing hm e)
    rw [stored?_edit hm] at hrest
    refine hrest.trans ?_
    rw [last?_cons]
    cases last? edits k with
    | some e' => rfl
    | none => cases h : k == e.key <;> simp

theorem stored?_eq_some_iff (hm : m.Increasing) {e : Form × Form} :
    m.stored? k = some e ↔ e ∈ m ∧ k == e.1 := by
  rw [← Form.cmp_eq_iff_beq]
  exact Sorted.find?_eq_some_iff Form.cmp Prod.fst hm

theorem listing (hm : m.Increasing) : Listing m :=
  hm.distinct.imp fun hne hbeq => hne (Form.cmp_eq_iff_beq.mpr hbeq)

theorem contains_iff (hm : m.Increasing) : m.contains k ↔ ∃ k' ∈ m.map Prod.fst, k == k' := by
  unfold contains
  simp only [Option.isSome_iff_exists, find?_eq_some_iff hm, List.mem_map]
  constructor
  · rintro ⟨v, e, he, hk, -⟩
    exact ⟨e.1, ⟨e, he, rfl⟩, hk⟩
  · rintro ⟨k', ⟨e, he, rfl⟩, hk⟩
    exact ⟨e.2, e, he, hk, rfl⟩

theorem length_eq_ncard (hm : m.Increasing) :
    m.length = {c : Form | ∃ k, m.contains k ∧ k.bare = c}.ncard := by
  have hkeys : FormSet.Listing (m.map Prod.fst) := List.pairwise_map.mpr (listing hm)
  simp only [contains_iff hm]
  rw [Form.ncard_bare hkeys, List.length_map]

theorem represents_of_increasing (hm : m.Increasing) {l : List (Form × Form)} (hl : l.Perm m) :
    m.Represents l := by
  have hrepresents := represents_ofList (listing hm) hl
  rwa [ofList, merge, ← Sorted.ofList, Sorted.ofList_of_increasing hm] at hrepresents

theorem shows_run (edits : List Edit) : (run [] edits).Shows edits := by
  have hincr : (run [] edits).Increasing := run_increasing .nil edits
  have hentry (k k' v : Form) :
      (run [] edits).stored? k = some (k', v) ↔ last? edits k = some (.assoc k' v) := by
    rw [stored?_run .nil]
    rcases last? edits k with _ | ⟨k₁, v₁⟩ | k₁ <;> simp [stored?, Edit.leaves?]
  have hfind (k v : Form) :
      (run [] edits).find? k = some v ↔ ∃ k', last? edits k = some (.assoc k' v) := by
    simp only [← hentry]
    change ((run [] edits).stored? k).map Prod.snd = some v ↔ _
    simp
  refine ⟨fun k => ?_, fun k k' v => ?_, hfind, length_eq_ncard hincr,
    fun l hl => represents_of_increasing hincr hl⟩
  · rw [contains, Option.isSome_iff_exists, exists_comm]
    exact exists_congr (hfind k)
  · rw [← hentry, stored?_eq_some_iff hincr]

example : run [] [.assoc (.sym "a") (.number 1), .assoc (.key "b") .nil,
    .assoc (.symbol ⟨none, "a"⟩ [(.key "tag", .sym "t")]) (.number 2), .dissoc (.key "b")] =
    [(.symbol ⟨none, "a"⟩ [(.key "tag", .sym "t")], .number 2)] := by
  rfl

theorem run_ofList (entries : List (Form × Form)) (edits : List Edit) :
    (ofList entries).run edits = run [] (entries.map (fun e => .assoc e.1 e.2) ++ edits) := by
  unfold run
  rw [List.foldl_append, List.foldl_map]
  rfl

section Equal

variable (hm : m.Increasing) (hn : n.Increasing)

theorem beq_iff_bareEntries : m.beq n ↔ Form.bareEntries m = Form.bareEntries n :=
  Form.beqEntries_iff fun _ _ => ⟨fun _ => Form.beq_iff_bare, fun _ => Form.beq_iff_bare⟩

theorem beq_iff_cmp : m.beq n ↔ m.cmp n = .eq := by
  rw [beq_iff_bareEntries]
  refine (Form.cmpEntries_eq_iff fun _ _ => ?_).symm
  exact ⟨fun _ => Form.cmp_eq_iff_bare, fun _ => Form.cmp_eq_iff_bare⟩

theorem beq_iff_forall₂ :
    m.beq n ↔ Forall₂ (fun e e' => e.1 == e'.1 ∧ e.2 == e'.2) m n := by
  rw [beq_iff_bareEntries, Form.bareEntries_eq, Form.bareEntries_eq, ← List.forall₂_eq_eq_eq,
    List.forall₂_map_left_iff, List.forall₂_map_right_iff]
  simp only [Prod.mk.injEq, ← Form.beq_iff_bare]
  rfl

theorem find?_of_forall₂ (h : Forall₂ (fun e e' => e.1 == e'.1 ∧ e.2 == e'.2) m n) (k : Form) :
    Option.Rel (· == ·) (m.find? k) (n.find? k) := by
  have hentry : Option.Rel _ (m.stored? k) (n.stored? k) :=
    Sorted.related_find? (fun e e' he => Form.cmp_congr_right he.1 k) h
  change Option.Rel _ ((m.stored? k).map Prod.snd) ((n.stored? k).map Prod.snd)
  rw [Option.map_eq_bind, Option.map_eq_bind]
  exact related_bind hentry fun e e' he => .some he.2

include hm hn

theorem agrees_of_find? (h : ∀ k, Option.Rel (· == ·) (m.find? k) (n.find? k)) : Agrees m n := by
  have hcontains (k : Form) : m.contains k = n.contains k := isSome_eq_of_related (h k)
  refine ⟨?_, fun e he => ?_⟩
  · rw [length_eq_ncard hm, length_eq_ncard hn]
    simp only [hcontains]
  · have hfind : m.find? e.1 = some e.2 :=
      (find?_eq_some_iff hm).mpr ⟨e, he, Form.beq_iff_bare.mpr rfl, rfl⟩
    have hrel := h e.1
    rw [hfind] at hrel
    generalize hw : n.find? e.1 = o at hrel
    cases hrel with
    | some hv =>
      obtain ⟨e', he', hk, rfl⟩ := (find?_eq_some_iff hn).mp hw
      exact ⟨e', he', hk, hv⟩

theorem comparesAlike : m.ComparesAlike n := by
  unfold ComparesAlike
  tfae_have 1 ↔ 2 := beq_iff_cmp
  tfae_have 1 ↔ 3 := beq_iff_agrees hm hn
  tfae_have 1 ↔ 5 := beq_iff_forall₂
  tfae_have 5 → 4 := find?_of_forall₂
  tfae_have 4 → 3 := agrees_of_find? hm hn
  tfae_finish

end Equal

end FormMap

namespace FormSet

/-- What the elements put into the set say of it, the last of equal ones being the one it holds. The
size is the number of elements that differ, and they are sorted to the set from any order. -/
structure Shows (s : FormSet) (elems : List Form) : Prop where
  contains_iff (a : Form) : s.contains a ↔ ∃ b ∈ elems, a == b
  stored_iff (a b : Form) : b ∈ s ∧ a == b ↔ elems.reverse.find? (a == ·) = some b
  size : s.length = {c : Form | ∃ a, s.contains a ∧ a.bare = c}.ncard
  represents (l : List Form) : l.Perm s → s.Represents l

def ComparesAlike (s t : FormSet) : Prop :=
  List.TFAE [s.beq t = true, s.cmp t = .eq, Agrees s t, ∀ a, s.contains a = t.contains a,
    Forall₂ (· == ·) s t]

variable {s t : FormSet}

theorem listing (hs : Sorted.Increasing Form.cmp s) : Listing s :=
  hs.distinct.imp fun hne hbeq => hne (Form.cmp_eq_iff_beq.mpr hbeq)

theorem length_eq_ncard (hs : Sorted.Increasing Form.cmp s) :
    s.length = {c : Form | ∃ a, s.contains a ∧ a.bare = c}.ncard := by
  simp only [contains_iff hs]
  rw [Form.ncard_bare (listing hs)]

theorem represents_of_increasing (hs : Sorted.Increasing Form.cmp s) {l : List Form}
    (hl : l.Perm s) : s.Represents l := by
  have hrepresents := represents_ofList (listing hs) hl
  rwa [ofList, Sorted.ofList_of_increasing hs] at hrepresents

theorem shows_ofList (elems : List Form) : (ofList elems).Shows elems := by
  have hincr : Sorted.Increasing Form.cmp (ofList elems) := Sorted.ofList_increasing elems
  refine ⟨fun a => ?_, fun a b => ?_, length_eq_ncard hincr,
    fun l hl => represents_of_increasing hincr hl⟩
  · rw [contains, find?_ofList, List.find?_isSome]
    simp only [List.mem_reverse]
  · rw [← find?_ofList, ← Form.cmp_eq_iff_beq]
    exact (Sorted.find?_eq_some_iff Form.cmp id hincr).symm

theorem foldl_insert (start elems : List Form) :
    elems.foldl insert (ofList start) = ofList (start ++ elems) :=
  List.foldl_append.symm

section Equal

theorem beq_iff_bareElems : s.beq t ↔ Form.bareElems s = Form.bareElems t :=
  Form.beqElems_iff fun _ _ _ => Form.beq_iff_bare

theorem beq_iff_cmp : s.beq t ↔ s.cmp t = .eq := by
  rw [beq_iff_bareElems]
  exact (Form.cmpElems_eq_iff fun _ _ _ => Form.cmp_eq_iff_bare).symm

theorem beq_iff_forall₂ : s.beq t ↔ Forall₂ (· == ·) s t := by
  rw [beq_iff_bareElems, Form.bareElems_eq, Form.bareElems_eq, ← List.forall₂_eq_eq_eq,
    List.forall₂_map_left_iff, List.forall₂_map_right_iff]
  simp only [← Form.beq_iff_bare]
  rfl

theorem contains_of_forall₂ (h : Forall₂ (· == ·) s t) (a : Form) :
    s.contains a = t.contains a :=
  isSome_eq_of_related (Sorted.related_find? (fun _ _ hb => Form.cmp_congr_right hb a) h)

variable (hs : Sorted.Increasing Form.cmp s) (ht : Sorted.Increasing Form.cmp t)
include hs ht

theorem agrees_of_contains (h : ∀ a, s.contains a = t.contains a) : Agrees s t := by
  refine ⟨?_, fun a ha => ?_⟩
  · rw [length_eq_ncard hs, length_eq_ncard ht]
    simp only [h]
  · have hmem : s.contains a := (contains_iff hs).mpr ⟨a, ha, Form.beq_iff_bare.mpr rfl⟩
    exact (contains_iff ht).mp (h a ▸ hmem)

theorem comparesAlike : s.ComparesAlike t := by
  unfold ComparesAlike
  tfae_have 1 ↔ 2 := beq_iff_cmp
  tfae_have 1 ↔ 3 := beq_iff_agrees hs ht
  tfae_have 1 ↔ 5 := beq_iff_forall₂
  tfae_have 5 → 4 := contains_of_forall₂
  tfae_have 4 → 3 := agrees_of_contains hs ht
  tfae_finish

end Equal

end FormSet

/-- What a map holds is what the last edit of each key left, and what a set holds the last put in of
equal elements; no two histories make a difference but by that. -/
theorem collections_extensional (edits edits' : List FormMap.Edit) (elems elems' : List Form) :
    (FormMap.run [] edits).Shows edits ∧
    (FormMap.run [] edits).ComparesAlike (FormMap.run [] edits') ∧
    (∀ entries, (FormMap.ofList entries).run edits =
      FormMap.run [] (entries.map (fun e => .assoc e.1 e.2) ++ edits)) ∧
    (FormSet.ofList elems).Shows elems ∧
    (FormSet.ofList elems).ComparesAlike (FormSet.ofList elems') ∧
    elems'.foldl FormSet.insert (FormSet.ofList elems) = FormSet.ofList (elems ++ elems') :=
  ⟨FormMap.shows_run edits,
    FormMap.comparesAlike (FormMap.run_increasing .nil edits) (FormMap.run_increasing .nil edits'),
    fun entries => FormMap.run_ofList entries edits, FormSet.shows_ofList elems,
    FormSet.comparesAlike (Sorted.ofList_increasing elems) (Sorted.ofList_increasing elems'),
    FormSet.foldl_insert elems elems'⟩

end LispFront
