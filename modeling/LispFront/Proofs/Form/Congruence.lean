import LispFront.Proofs.Form.Table

/-!
# Equal forms take each other's place

Nothing that is done with forms, maps and sets tells equal forms apart: not their texts, not the
order, not equality, not a hasher, and neither look-up nor change of a collection in which they are
keys or elements, be it the sorted list or a hash table.
-/

namespace LispFront

open Std

namespace Form

variable {a b : Form}

/-- In a hash table one of the forms finds, replaces and removes what the other one does. -/
structure SameKey (h : Hasher) (a b : Form) : Prop where
  find {β : Type} (t : Table h β) : t.getKey? a = t.getKey? b ∧ t[a]? = t[b]?
  erase {β : Type} (t : Table h β) (c : Form) :
    (t.erase a).getKey? c = (t.erase b).getKey? c ∧ (t.erase a)[c]? = (t.erase b)[c]?
  insert {β : Type} (t : Table h β) (v : β) (c : Form) :
    Option.Rel (· == ·) ((t.insert a v).getKey? c) ((t.insert b v).getKey? c) ∧
      (t.insert a v)[c]? = (t.insert b v)[c]?

/-- Whatever is done with one of the forms, as a form, a key or an element, the other one does. -/
structure Interchangeable (a b : Form) : Prop where
  text : a.text = b.text
  cmp (c : Form) : a.cmp c = b.cmp c
  beq (c : Form) : (a == c) = (b == c)
  hash (h : Hasher) : h.hash a = h.hash b
  find? (m : FormMap) : m.find? a = m.find? b
  erase (m : FormMap) : m.erase a = m.erase b
  asKey (m : FormMap) {v w : Form} (metadata metadata' : FormMap) : v == w →
    Form.map (m.insert a v) metadata == Form.map (m.insert b w) metadata'
  contains (s : FormSet) : s.contains a = s.contains b
  asElem (s : FormSet) (metadata metadata' : FormMap) :
    Form.set (s.insert a) metadata == Form.set (s.insert b) metadata'
  inTables (h : Hasher) : SameKey h a b

theorem sameKey_of_beq (h : Hasher) (hab : a == b) : SameKey h a b where
  find t := ⟨HashMap.getKey?_congr hab, HashMap.getElem?_congr hab⟩
  erase t c := by
    rw [HashMap.getKey?_erase, HashMap.getKey?_erase, HashMap.getElem?_erase,
      HashMap.getElem?_erase, beq_congr hab]
    exact ⟨rfl, rfl⟩
  insert t v c := by
    rw [HashMap.getKey?_insert, HashMap.getKey?_insert, HashMap.getElem?_insert,
      HashMap.getElem?_insert, beq_congr hab]
    refine ⟨?_, rfl⟩
    split
    · exact .some hab
    · exact related_option_refl (fun _ => BEq.rfl) _

theorem interchangeable_of_beq (h : a == b) : Interchangeable a b where
  text := text_congr h
  cmp := cmp_congr h
  beq := beq_congr h
  hash hasher := hash_congr hasher h
  find? m := by simp only [FormMap.find?, cmp_congr h]
  erase m := by simp only [FormMap.erase, cmp_congr h]
  asKey m v w metadata metadata' hv := by
    apply beq_iff_bare.mpr
    simp only [bare, bareEntries_insert, beq_iff_bare.mp h, beq_iff_bare.mp hv]
  contains s := by
    have hprobe : a.cmp = b.cmp := funext (cmp_congr h)
    simp only [FormSet.contains, hprobe]
  asElem s metadata metadata' := by
    apply beq_iff_bare.mpr
    simp only [bare, bareElems_insert, beq_iff_bare.mp h]
  inTables hasher := sameKey_of_beq hasher h

end Form

/-- The order of forms is linear and its equality is the equality of forms, both look through
metadata at every depth, and equal forms are interchangeable. All of it holds of maps and sets in
whatever order their entries are listed, since sorting forgets that order. Equal forms are those
that a hasher can not tell apart, so hash tables hold what sorted lists with the same history do. -/
theorem form_order_linear_and_congruent (a b c : Form) :
    a.cmp b = (b.cmp a).swap ∧
    ((a.cmp b).isLE → (b.cmp c).isLE → (a.cmp c).isLE) ∧
    (a.cmp b = .eq ↔ a == b) ∧
    (a == b ↔ a.bare = b.bare) ∧
    a.bare.cmp b.bare = a.cmp b ∧
    (a == b → a.Interchangeable b) ∧
    (∀ l l', FormMap.Listing l → l'.Perm l → (FormMap.ofList l).Represents l') ∧
    (∀ l l', FormMap.Listing l → FormMap.Listing l' → ∀ metadata metadata',
      (Form.map (FormMap.sorted l) metadata == Form.map (FormMap.sorted l') metadata' ↔
        FormMap.Agrees l l')) ∧
    (∀ l l', FormSet.Listing l → l'.Perm l → (FormSet.ofList l).Represents l') ∧
    (∀ l l', FormSet.Listing l → FormSet.Listing l' → ∀ metadata metadata',
      (Form.set (FormSet.sorted l) metadata == Form.set (FormSet.sorted l') metadata' ↔
        FormSet.Agrees l l')) ∧
    (a.fed = b.fed ↔ a == b) ∧
    ∀ h edits elems, (FormMap.run [] edits).KeptIn (FormMap.tableOf h edits) ∧
      (FormSet.ofList elems).KeptIn (FormSet.tableOf h elems) := by
  refine ⟨Form.cmp_swap a b, TransCmp.isLE_trans, Form.cmp_eq_iff_beq, Form.beq_iff_bare,
    Form.cmp_bare a b, Form.interchangeable_of_beq, fun l l' h hl => FormMap.represents_ofList h hl,
    fun l l' h h' metadata metadata' => ?_, fun l l' h hl => FormSet.represents_ofList h hl,
    fun l l' h h' metadata metadata' => ?_, Form.fed_eq_iff_beq, fun h edits elems => ?_⟩
  · exact FormMap.sorted_beq_iff h h'
  · exact FormSet.sorted_beq_iff h h'
  · exact ⟨FormMap.keptIn_tableOf h edits, FormSet.keptIn_tableOf h elems⟩

theorem form_order_congruent_on_relisted_map :
    (Form.map (FormMap.ofList [(.key "k", .sym "x"), (.string "s", .number 1)]) []).Interchangeable
      (.map (FormMap.ofList [(.string "s", .number 1), (.key "k", .sym "x")])
        [(.key "m", .bool true)]) ∧
    (FormMap.ofList [(.key "k", .sym "x"), (.string "s", .number 1)]).Represents
      [(.string "s", .number 1), (.key "k", .sym "x")] :=
  have h := form_order_linear_and_congruent
    (.map (FormMap.ofList [(.key "k", .sym "x"), (.string "s", .number 1)]) [])
    (.map (FormMap.ofList [(.string "s", .number 1), (.key "k", .sym "x")])
      [(.key "m", .bool true)]) .nil
  ⟨h.2.2.2.2.2.1 (by decide), h.2.2.2.2.2.2.1 _ _ (by unfold FormMap.Listing; decide) (.swap _ _ _)⟩

end LispFront
