import Mathlib.Data.List.Basic
import LispFront.Proofs.Form.Hash
import LispFront.Proofs.Form.History

/-!
# Hash tables with forms as keys

Since equal forms have equal hashes, whatever the hasher, a hash table finds what the sorted list
with the same history finds: the entry last put in, with its key. Sorting what is in the table, in
whatever order it comes, gives the list.
-/

namespace LispFront

namespace Form

variable {a b : Form}

instance : EquivBEq Form where
  rfl := beq_iff_bare.mpr rfl
  symm h := beq_iff_bare.mpr (beq_iff_bare.mp h).symm
  trans h h' := beq_iff_bare.mpr ((beq_iff_bare.mp h).trans (beq_iff_bare.mp h'))

theorem nodup_of_distinct {α : Type} (key : α → Form) {l : List α}
    (h : l.Pairwise fun x y => ¬key x == key y) : l.Nodup :=
  h.imp fun hne heq => hne (beq_of_eq (congrArg key heq))

@[reducible] def hashable (h : Hasher) : Hashable Form := ⟨h.hash⟩

instance (h : Hasher) : @LawfulHashable Form _ (hashable h) :=
  @LawfulHashable.mk Form _ (hashable h) fun _ _ hab => hash_congr h hab

abbrev Table (h : Hasher) (β : Type) : Type := @Std.HashMap Form β _ (hashable h)

end Form

namespace FormMap

variable {h : Hasher} {m : FormMap} {t : Form.Table h Form}

def Edit.onTable (t : Form.Table h Form) : Edit → Form.Table h Form
  | .assoc k v => t.insert k v
  | .dissoc k => t.erase k

def tableOf (h : Hasher) (edits : List Edit) : Form.Table h Form := edits.foldl Edit.onTable ∅

def FoundIn (m : FormMap) (t : Form.Table h Form) : Prop :=
  ∀ k, t.getKey? k = (m.stored? k).map (·.1) ∧ t[k]? = (m.stored? k).map (·.2)

/-- The table holds what the map holds, and the map is what is in the table, sorted. -/
structure KeptIn (m : FormMap) (t : Form.Table h Form) : Prop where
  key (k : Form) : t.getKey? k = (m.stored? k).map (·.1)
  value (k : Form) : t[k]? = m.find? k
  size : t.size = m.length
  sorted (l : List (Form × Form)) : l.Perm t.toList → sorted l = m

theorem foundIn_edit (hm : m.Increasing) (ht : m.FoundIn t) (e : Edit) :
    (m.edit e).FoundIn (e.onTable t) := by
  intro k
  obtain ⟨hkey, hvalue⟩ := ht k
  rw [stored?_edit hm, BEq.comm (a := k)]
  cases e with
  | assoc k' v =>
    rw [Edit.onTable, Std.HashMap.getKey?_insert, Std.HashMap.getElem?_insert, hkey, hvalue]
    cases h : k' == k <;> simp [Edit.key, Edit.leaves?, h]
  | dissoc k' =>
    rw [Edit.onTable, Std.HashMap.getKey?_erase, Std.HashMap.getElem?_erase, hkey, hvalue]
    cases h : k' == k <;> simp [Edit.key, Edit.leaves?, h]

theorem foundIn_run (hm : m.Increasing) (ht : m.FoundIn t) (edits : List Edit) :
    (m.run edits).FoundIn (edits.foldl Edit.onTable t) := by
  -- only look-ups are carried along; that the table holds nothing else follows at the end
  induction edits generalizing m t with
  | nil => exact ht
  | cons e edits ih => exact ih (edit_increasing hm e) (foundIn_edit hm ht e)

/-- What is found in the table is in it, and nothing else. -/
theorem FoundIn.perm (hm : m.Increasing) (ht : m.FoundIn t) : t.toList.Perm m := by
  have hnodup : t.toList.Nodup :=
    Form.nodup_of_distinct Prod.fst (Std.HashMap.distinct_keys_toList.imp ne_true_of_eq_false)
  have hnodup' : m.Nodup := Form.nodup_of_distinct Prod.fst (listing hm)
  refine (List.perm_ext_iff_of_nodup hnodup hnodup').mpr fun ⟨k, v⟩ => ?_
  obtain ⟨hkey, hvalue⟩ := ht k
  rw [Std.HashMap.mem_toList_iff_getKey?_eq_some_and_getElem?_eq_some, hkey, hvalue]
  have hmem : (k, v) ∈ m ↔ m.stored? k = some (k, v) := by
    rw [stored?_eq_some_iff hm, and_iff_left BEq.rfl]
  rw [hmem]
  cases m.stored? k with
  | none => simp
  | some e => simp [Prod.ext_iff]

theorem keptIn_tableOf (h : Hasher) (edits : List Edit) :
    (run [] edits).KeptIn (tableOf h edits) := by
  have hm : (run [] edits).Increasing := run_increasing .nil edits
  have hempty : FoundIn [] (∅ : Form.Table h Form) := fun k =>
    ⟨Std.HashMap.getKey?_empty, Std.HashMap.getElem?_empty⟩
  have hfound : (run [] edits).FoundIn (tableOf h edits) := foundIn_run .nil hempty edits
  have hperm := hfound.perm hm
  refine ⟨fun k => (hfound k).1, fun k => (hfound k).2, ?_, fun l hl => ?_⟩
  · rw [← Std.HashMap.length_toList, hperm.length_eq]
  · exact (represents_of_increasing hm (hl.trans hperm)).sorted

end FormMap

namespace FormSet

variable {h : Hasher} {s : FormSet} {t : Form.Table h Unit}

def tableOf (h : Hasher) (elems : List Form) : Form.Table h Unit :=
  elems.foldl (fun t a => t.insert a ()) ∅

def FoundIn (s : FormSet) (t : Form.Table h Unit) : Prop :=
  ∀ a, t.getKey? a = Sorted.find? a.cmp s

structure KeptIn (s : FormSet) (t : Form.Table h Unit) : Prop where
  elem (a : Form) : t.getKey? a = Sorted.find? a.cmp s
  contains (a : Form) : t.contains a = s.contains a
  size : t.size = s.length
  sorted (l : List Form) : l.Perm t.keys → sorted l = s

theorem foundIn_insert (ht : s.FoundIn t) (a : Form) : (s.insert a).FoundIn (t.insert a ()) := by
  intro b
  have hinsert := Sorted.find?_insert Form.cmp id b a s
  simp only [id, Form.cmp_eq_iff_beq] at hinsert
  rw [Std.HashMap.getKey?_insert, ht b, BEq.comm (a := a)]
  exact hinsert.symm

theorem foundIn_tableOf (ht : s.FoundIn t) (elems : List Form) :
    (elems.foldl insert s).FoundIn (elems.foldl (fun t a => t.insert a ()) t) := by
  induction elems generalizing s t with
  | nil => exact ht
  | cons a elems ih => exact ih (foundIn_insert ht a)

theorem FoundIn.perm (hs : Sorted.Increasing Form.cmp s) (ht : s.FoundIn t) : t.keys.Perm s := by
  have hnodup : t.keys.Nodup :=
    Form.nodup_of_distinct id (Std.HashMap.distinct_keys.imp ne_true_of_eq_false)
  have hnodup' : s.Nodup := Form.nodup_of_distinct id (listing hs)
  refine (List.perm_ext_iff_of_nodup hnodup hnodup').mpr fun a => ?_
  have hmem : a ∈ s ↔ Sorted.find? a.cmp s = some a := by
    have hfind := Sorted.find?_eq_some_iff Form.cmp id (k := a) (a := a) hs
    simp only [id, Form.cmp_eq_iff_beq, BEq.rfl, and_true] at hfind
    exact hfind.symm
  rw [hmem, ← ht a, ← Std.HashMap.map_fst_toList_eq_keys, List.mem_map]
  constructor
  · rintro ⟨⟨_, u⟩, he, rfl⟩
    exact (Std.HashMap.mem_toList_iff_getKey?_eq_some_and_getElem?_eq_some.mp he).1
  · intro hkey
    have hcontains : t[a]?.isSome := by
      rw [Std.HashMap.isSome_getElem?_eq_contains, Std.HashMap.contains_eq_isSome_getKey?, hkey]
      rfl
    obtain ⟨u, hu⟩ := Option.isSome_iff_exists.mp hcontains
    have hmem := Std.HashMap.mem_toList_iff_getKey?_eq_some_and_getElem?_eq_some.mpr ⟨hkey, hu⟩
    exact ⟨(a, u), hmem, rfl⟩

theorem keptIn_tableOf (h : Hasher) (elems : List Form) :
    (ofList elems).KeptIn (tableOf h elems) := by
  have hs : Sorted.Increasing Form.cmp (ofList elems) := Sorted.ofList_increasing elems
  have hempty : FoundIn [] (∅ : Form.Table h Unit) := fun a => Std.HashMap.getKey?_empty
  have hfound : (ofList elems).FoundIn (tableOf h elems) := foundIn_tableOf hempty elems
  have hperm := hfound.perm hs
  refine ⟨hfound, fun a => ?_, ?_, fun l hl => ?_⟩
  · rw [Std.HashMap.contains_eq_isSome_getKey?, hfound a, contains]
  · rw [← Std.HashMap.length_keys, hperm.length_eq]
  · exact (represents_of_increasing hs (hl.trans hperm)).sorted

end FormSet

end LispFront
