import LispFront.Sorted
import Mathlib.Data.List.Perm.Subperm

/-!
# Look-up and order in sorted lists

Look-up after insertion needs no sorted list, only a lawful comparison of the keys. What insertion
makes of a sorted list is sorted, and inserting a sorted list into the empty one gives it back.
Distinct entries can be put in order in one way only, so whatever sorts them agrees with insertion.
-/

namespace LispFront.Sorted

open Std

variable {α : Type u} {κ : Type v} {cmp : α → α → Ordering}

theorem find?_insert (ord : κ → κ → Ordering) [TransCmp ord] (key : α → κ) (k : κ) (a : α)
    (l : List α) :
    find? (fun b => ord k (key b)) (insert (fun a b => ord (key a) (key b)) a l) =
      if ord k (key a) = .eq then some a else find? (fun b => ord k (key b)) l := by
  induction l with
  | nil => cases h : ord k (key a) <;> simp [insert, find?, h]
  | cons b l ih =>
    cases hab : ord (key a) (key b) with
    | lt =>
      cases hka : ord k (key a) with
      | lt =>
        have hkb : ord k (key b) = .lt := TransCmp.lt_trans hka hab
        simp [insert, find?, hab, hka, hkb]
      | eq => simp [insert, find?, hab, hka]
      | gt => simp [insert, find?, hab, hka]
    | eq =>
      have hkb : ord k (key a) = ord k (key b) := TransCmp.congr_right hab
      cases hka : ord k (key b) <;> simp [insert, find?, hab, hkb, hka]
    | gt =>
      have hba : ord (key b) (key a) = .lt := OrientedCmp.lt_of_gt hab
      cases hkb : ord k (key b) with
      | lt =>
        have hka : ord k (key a) = .lt := TransCmp.lt_trans hkb hba
        simp [insert, find?, hab, hkb, hka]
      | eq =>
        have hka : ord k (key a) = .lt := TransCmp.lt_of_eq_of_lt hkb hba
        simp [insert, find?, hab, hkb, hka]
      | gt => simpa [insert, find?, hab, hkb] using ih

theorem find?_insertMany (ord : κ → κ → Ordering) [TransCmp ord] (key : α → κ) (k : κ)
    (new l : List α) :
    find? (fun b => ord k (key b)) (insertMany (fun a b => ord (key a) (key b)) new l) =
      (new.reverse.find? fun a => ord k (key a) == .eq).or (find? (fun b => ord k (key b)) l) := by
  induction new generalizing l with
  | nil => rfl
  | cons a new ih =>
    have hinsert := ih (insert (fun a b => ord (key a) (key b)) a l)
    rw [find?_insert] at hinsert
    refine hinsert.trans ?_
    rw [List.reverse_cons, List.find?_append, Option.or_assoc]
    congr 1
    by_cases hk : ord k (key a) = .eq <;> simp [hk]

theorem insert_comm_of_lt (ord : κ → κ → Ordering) [TransCmp ord] (key : α → κ) {a b : α}
    (hab : ord (key a) (key b) = .lt) (l : List α) :
    insert (fun a b => ord (key a) (key b)) a (insert (fun a b => ord (key a) (key b)) b l) =
      insert (fun a b => ord (key a) (key b)) b (insert (fun a b => ord (key a) (key b)) a l) := by
  have hba : ord (key b) (key a) = .gt := OrientedCmp.gt_of_lt hab
  induction l with
  | nil => simp [insert, hab, hba]
  | cons c l ih =>
    cases hbc : ord (key b) (key c) with
    | lt =>
      have hac : ord (key a) (key c) = .lt := TransCmp.lt_trans hab hbc
      simp [insert, hab, hba, hbc, hac]
    | eq =>
      have hac : ord (key a) (key c) = .lt := TransCmp.lt_of_lt_of_eq hab hbc
      simp [insert, hab, hba, hbc, hac]
    | gt => cases hac : ord (key a) (key c) <;> simp [insert, hba, hbc, hac, ih]

theorem insert_comm (ord : κ → κ → Ordering) [TransCmp ord] (key : α → κ) {a b : α}
    (hab : ord (key a) (key b) ≠ .eq) (l : List α) :
    insert (fun a b => ord (key a) (key b)) a (insert (fun a b => ord (key a) (key b)) b l) =
      insert (fun a b => ord (key a) (key b)) b (insert (fun a b => ord (key a) (key b)) a l) := by
  cases h : ord (key a) (key b) with
  | lt => exact insert_comm_of_lt ord key h l
  | eq => exact absurd h hab
  | gt => exact (insert_comm_of_lt ord key (OrientedCmp.lt_of_gt h) l).symm

theorem of_find? {probe : α → Ordering} {a : α} {l : List α} (h : find? probe l = some a) :
    a ∈ l ∧ probe a = .eq := by
  induction l with
  | nil => cases h
  | cons b l ih =>
    cases hb : probe b with
    | lt => simp [find?, hb] at h
    | eq =>
      simp only [find?, hb, Option.some.injEq] at h
      subst h
      exact ⟨List.mem_cons_self, hb⟩
    | gt =>
      obtain ⟨hmem, ha⟩ := ih (by simpa [find?, hb] using h)
      exact ⟨List.mem_cons_of_mem b hmem, ha⟩

/-- Strictly increasing, so no two entries have equal keys. -/
def Increasing (cmp : α → α → Ordering) (l : List α) : Prop := l.Pairwise fun a b => cmp a b = .lt

theorem increasing_map {β : Type v} {cmp' : β → β → Ordering} {f : α → β}
    (h : ∀ a b, cmp' (f a) (f b) = cmp a b) {l : List α} :
    Increasing cmp' (l.map f) ↔ Increasing cmp l := by
  unfold Increasing
  rw [List.pairwise_map]
  simp only [h]

theorem mem_insert {a x : α} {l : List α} (h : x ∈ insert cmp a l) : x = a ∨ x ∈ l := by
  induction l with
  | nil => simpa using h
  | cons b l ih =>
    cases hab : cmp a b with
    | lt => simpa [insert, hab] using h
    | eq =>
      simp only [insert, hab, List.mem_cons] at h ⊢
      exact h.imp_right .inr
    | gt =>
      simp only [insert, hab, List.mem_cons] at h ⊢
      rcases h with h | h
      · exact .inr (.inl h)
      · exact (ih h).imp_right .inr

theorem insert_increasing [TransCmp cmp] (a : α) {l : List α} (h : Increasing cmp l) :
    Increasing cmp (insert cmp a l) := by
  induction l with
  | nil => exact List.pairwise_singleton _ _
  | cons b l ih =>
    obtain ⟨hb, hl⟩ := List.pairwise_cons.mp h
    cases hab : cmp a b with
    | lt =>
      simp only [insert, hab]
      refine List.pairwise_cons.mpr ⟨fun x hx => ?_, h⟩
      rcases List.mem_cons.mp hx with rfl | hx
      · exact hab
      · exact TransCmp.lt_trans hab (hb x hx)
    | eq =>
      simp only [insert, hab]
      exact List.pairwise_cons.mpr ⟨fun x hx => TransCmp.lt_of_eq_of_lt hab (hb x hx), hl⟩
    | gt =>
      simp only [insert, hab]
      refine List.pairwise_cons.mpr ⟨fun x hx => ?_, ih hl⟩
      rcases mem_insert hx with rfl | hx
      · exact OrientedCmp.lt_of_gt hab
      · exact hb x hx

theorem mem_insertMany {x : α} {new l : List α} (h : x ∈ insertMany cmp new l) :
    x ∈ new ∨ x ∈ l := by
  induction new generalizing l with
  | nil => exact .inr h
  | cons a new ih =>
    rcases ih h with h | h
    · exact .inl (List.mem_cons_of_mem _ h)
    · rcases mem_insert h with rfl | h
      · exact .inl List.mem_cons_self
      · exact .inr h

theorem insertMany_increasing [TransCmp cmp] (new : List α) {l : List α}
    (h : Increasing cmp l) : Increasing cmp (insertMany cmp new l) := by
  induction new generalizing l with
  | nil => exact h
  | cons a new ih => exact ih (insert_increasing a h)

theorem ofList_increasing [TransCmp cmp] (l : List α) : Increasing cmp (ofList cmp l) :=
  insertMany_increasing l .nil

theorem insert_of_forall_lt [OrientedCmp cmp] {a : α} {l : List α}
    (h : ∀ b ∈ l, cmp b a = .lt) : insert cmp a l = l ++ [a] := by
  induction l with
  | nil => rfl
  | cons b l ih =>
    have hab : cmp a b = .gt := OrientedCmp.gt_of_lt (h b List.mem_cons_self)
    simp only [insert, hab, List.cons_append]
    rw [ih fun c hc => h c (List.mem_cons_of_mem _ hc)]

theorem insertMany_of_increasing [OrientedCmp cmp] {new l : List α}
    (h : Increasing cmp (l ++ new)) : insertMany cmp new l = l ++ new := by
  induction new generalizing l with
  | nil => simp
  | cons a new ih =>
    have hl : insert cmp a l = l ++ [a] :=
      insert_of_forall_lt fun b hb =>
        (List.pairwise_append.mp h).2.2 b hb a List.mem_cons_self
    change insertMany cmp new (insert cmp a l) = l ++ a :: new
    rw [hl, ih (by simpa using h)]
    simp

section Map

variable {β : Type v} {cmp' : β → β → Ordering} {f : α → β}
  (h : ∀ a b, cmp' (f a) (f b) = cmp a b)
include h

theorem insert_map (a : α) (l : List α) :
    insert cmp' (f a) (l.map f) = (insert cmp a l).map f := by
  induction l with
  | nil => rfl
  | cons b l ih => cases hab : cmp a b <;> simp [insert, h, hab, ih]

theorem insertMany_map (new l : List α) :
    insertMany cmp' (new.map f) (l.map f) = (insertMany cmp new l).map f := by
  induction new generalizing l with
  | nil => rfl
  | cons a new ih =>
    change insertMany cmp' (new.map f) (insert cmp' (f a) (l.map f)) = _
    rw [insert_map h, ih]
    rfl

theorem ofList_map (l : List α) : ofList cmp' (l.map f) = (ofList cmp l).map f :=
  insertMany_map h l []

end Map

section Erase

variable {probe : α → Ordering}

theorem erase_sublist (probe : α → Ordering) (l : List α) : (erase probe l).Sublist l := by
  induction l with
  | nil => exact .slnil
  | cons b l ih =>
    cases hb : probe b with
    | lt => simp [erase, hb]
    | eq => simp [erase, hb]
    | gt =>
      simp only [erase, hb]
      exact ih.cons_cons b

theorem erase_increasing (probe : α → Ordering) {l : List α} (h : Increasing cmp l) :
    Increasing cmp (erase probe l) :=
  h.sublist (erase_sublist probe l)

theorem erase_map {β : Type v} {f : β → α} (l : List β) :
    erase probe (l.map f) = (erase (fun b => probe (f b)) l).map f := by
  induction l with
  | nil => rfl
  | cons b l ih => cases hb : probe (f b) <;> simp [erase, hb, ih]

theorem find?_map {β : Type v} {f : β → α} (l : List β) :
    find? probe (l.map f) = (find? (fun b => probe (f b)) l).map f := by
  induction l with
  | nil => rfl
  | cons b l ih => cases hb : probe (f b) <;> simp [find?, hb, ih]

theorem find?_eq_none {l : List α} (h : ∀ b ∈ l, probe b = .lt) : find? probe l = none := by
  cases l with
  | nil => rfl
  | cons b l => simp [find?, h b List.mem_cons_self]

theorem insert_of_forall_gt {a : α} {l : List α} (h : ∀ b ∈ l, cmp a b = .lt) :
    insert cmp a l = a :: l := by
  cases l with
  | nil => rfl
  | cons b l => simp [insert, h b List.mem_cons_self]

variable (ord : κ → κ → Ordering) [TransCmp ord] (key : α → κ) {k k' : κ} {l : List α}

theorem find?_erase_of_ne (hk : ord k k' ≠ .eq)
    (hl : Increasing (fun a b => ord (key a) (key b)) l) :
    find? (fun b => ord k (key b)) (erase (fun b => ord k' (key b)) l) =
      find? (fun b => ord k (key b)) l := by
  induction l with
  | nil => rfl
  | cons b l ih =>
    obtain ⟨hb, hl⟩ := List.pairwise_cons.mp hl
    cases hk' : ord k' (key b) with
    | lt => simp [erase, hk']
    | eq =>
      simp only [erase, find?, hk']
      cases hkb : ord k (key b) with
      | lt => exact find?_eq_none fun c hc => TransCmp.lt_trans hkb (hb c hc)
      | eq => exact absurd (TransCmp.eq_trans hkb (OrientedCmp.eq_symm hk')) hk
      | gt => rfl
    | gt =>
      simp only [erase, find?, hk']
      rw [ih hl]

theorem find?_erase_of_eq (hk : ord k k' = .eq)
    (hl : Increasing (fun a b => ord (key a) (key b)) l) :
    find? (fun b => ord k (key b)) (erase (fun b => ord k' (key b)) l) = none := by
  induction l with
  | nil => rfl
  | cons b l ih =>
    obtain ⟨hb, hl⟩ := List.pairwise_cons.mp hl
    have hkb : ord k (key b) = ord k' (key b) := TransCmp.congr_left hk
    cases hk' : ord k' (key b) with
    | lt => simp [erase, find?, hk', hkb]
    | eq =>
      simp only [erase, hk']
      exact find?_eq_none fun c hc => TransCmp.lt_of_eq_of_lt (hkb.trans hk') (hb c hc)
    | gt => simp [erase, find?, hk', hkb, ih hl]

theorem find?_erase (hl : Increasing (fun a b => ord (key a) (key b)) l) :
    find? (fun b => ord k (key b)) (erase (fun b => ord k' (key b)) l) =
      if ord k k' = .eq then none else find? (fun b => ord k (key b)) l := by
  split
  · rename_i hk
    exact find?_erase_of_eq ord key hk hl
  · rename_i hk
    exact find?_erase_of_ne ord key hk hl

theorem erase_insert_of_ne {a : α} (hk : ord k (key a) ≠ .eq)
    (hl : Increasing (fun a b => ord (key a) (key b)) l) :
    erase (fun b => ord k (key b)) (insert (fun a b => ord (key a) (key b)) a l) =
      insert (fun a b => ord (key a) (key b)) a (erase (fun b => ord k (key b)) l) := by
  induction l with
  | nil => cases hka : ord k (key a) <;> simp_all [insert, erase]
  | cons b l ih =>
    obtain ⟨hb, hl⟩ := List.pairwise_cons.mp hl
    cases hab : ord (key a) (key b) with
    | lt =>
      cases hka : ord k (key a) with
      | lt =>
        have hkb : ord k (key b) = .lt := TransCmp.lt_trans hka hab
        simp [insert, erase, hab, hka, hkb]
      | eq => exact absurd hka hk
      | gt =>
        have hright : insert (fun a b => ord (key a) (key b)) a
            (erase (fun b => ord k (key b)) (b :: l)) =
              a :: erase (fun b => ord k (key b)) (b :: l) := by
          refine insert_of_forall_gt fun c hc => ?_
          rcases List.mem_cons.mp ((erase_sublist _ _).subset hc) with rfl | hc
          · exact hab
          · exact TransCmp.lt_trans hab (hb c hc)
        rw [hright]
        simp only [insert, hab]
        rw [erase, hka]
    | eq =>
      have hkb : ord k (key a) = ord k (key b) := TransCmp.congr_right hab
      cases hka : ord k (key a) with
      | lt => simp [insert, erase, hab, hka, hkb ▸ hka]
      | eq => exact absurd hka hk
      | gt => simp [insert, erase, hab, hka, hkb ▸ hka]
    | gt =>
      cases hkb : ord k (key b) with
      | lt => simp [insert, erase, hab, hkb]
      | eq => simp [insert, erase, hab, hkb]
      | gt => simp [insert, erase, hab, hkb, ih hl]

end Erase

theorem ofList_of_increasing [OrientedCmp cmp] {l : List α} (h : Increasing cmp l) :
    ofList cmp l = l :=
  insertMany_of_increasing h

theorem find?_of_mem (ord : κ → κ → Ordering) [TransCmp ord] (key : α → κ) {k : κ} {a : α}
    {l : List α} (hl : Increasing (fun a b => ord (key a) (key b)) l) (ha : a ∈ l)
    (hk : ord k (key a) = .eq) : find? (fun b => ord k (key b)) l = some a := by
  induction l with
  | nil => cases ha
  | cons b l ih =>
    obtain ⟨hb, hl⟩ := List.pairwise_cons.mp hl
    rcases List.mem_cons.mp ha with rfl | ha
    · simp [find?, hk]
    · have hkb : ord k (key b) = .gt :=
        OrientedCmp.gt_of_lt (TransCmp.lt_of_lt_of_eq (hb a ha) (OrientedCmp.eq_symm hk))
      simp [find?, hkb, ih hl ha]

theorem find?_eq_some_iff (ord : κ → κ → Ordering) [TransCmp ord] (key : α → κ) {k : κ} {a : α}
    {l : List α} (hl : Increasing (fun a b => ord (key a) (key b)) l) :
    find? (fun b => ord k (key b)) l = some a ↔ a ∈ l ∧ ord k (key a) = .eq :=
  ⟨of_find?, fun h => find?_of_mem ord key hl h.1 h.2⟩

theorem find?_insertMany_of_increasing (ord : κ → κ → Ordering) [TransCmp ord] (key : α → κ) (k : κ)
    {new : List α} (hnew : Increasing (fun a b => ord (key a) (key b)) new) (l : List α) :
    find? (fun b => ord k (key b)) (insertMany (fun a b => ord (key a) (key b)) new l) =
      (find? (fun b => ord k (key b)) new).or (find? (fun b => ord k (key b)) l) := by
  have horiented : OrientedCmp fun a b => ord (key a) (key b) := ⟨OrientedCmp.eq_swap⟩
  have hself := find?_insertMany ord key k new []
  rw [← ofList, ofList_of_increasing hnew, find?_nil, Option.or_none] at hself
  rw [find?_insertMany, hself]

/-- No two entries have equal keys, in whatever order they stand. -/
def Distinct (cmp : α → α → Ordering) (l : List α) : Prop := l.Pairwise fun a b => cmp a b ≠ .eq

theorem distinct_perm [OrientedCmp cmp] {l l' : List α} (h : l.Perm l') :
    Distinct cmp l ↔ Distinct cmp l' :=
  h.pairwise_iff fun hab hba => hab (OrientedCmp.eq_symm hba)

theorem Increasing.distinct {l : List α} (h : Increasing cmp l) : Distinct cmp l :=
  h.imp fun hab => by simp [hab]

theorem insert_perm {a : α} {l : List α} (h : ∀ b ∈ l, cmp a b ≠ .eq) :
    (insert cmp a l).Perm (a :: l) := by
  induction l with
  | nil => exact .refl _
  | cons b l ih =>
    obtain ⟨hb, hl⟩ := List.forall_mem_cons.mp h
    cases hab : cmp a b with
    | lt =>
      simp only [insert, hab]
      exact .refl _
    | eq => exact absurd hab hb
    | gt =>
      simp only [insert, hab]
      exact ((ih hl).cons b).trans (.swap a b l)

theorem insertMany_perm [OrientedCmp cmp] {new l : List α} (h : Distinct cmp (new ++ l)) :
    (insertMany cmp new l).Perm (new ++ l) := by
  induction new generalizing l with
  | nil => exact .refl _
  | cons a new ih =>
    obtain ⟨ha, hrest⟩ := List.pairwise_cons.mp h
    have hinsert : (insert cmp a l).Perm (a :: l) :=
      insert_perm fun b hb => ha b (List.mem_append_right new hb)
    have hmoved : (new ++ insert cmp a l).Perm (a :: (new ++ l)) :=
      (hinsert.append_left new).trans List.perm_middle
    exact (ih ((distinct_perm hmoved).mpr h)).trans hmoved

theorem ofList_perm [OrientedCmp cmp] {l : List α} (h : Distinct cmp l) :
    (ofList cmp l).Perm l := by
  have hperm : (ofList cmp l).Perm (l ++ []) := insertMany_perm (by rwa [List.append_nil])
  rwa [List.append_nil] at hperm

theorem insert_subperm (a : α) (l : List α) : (insert cmp a l).Subperm (a :: l) := by
  induction l with
  | nil => exact .refl _
  | cons b l ih =>
    cases hab : cmp a b with
    | lt =>
      simp only [insert, hab]
      exact .refl _
    | eq =>
      simp only [insert, hab]
      exact (List.cons_sublist_cons.mpr (List.sublist_cons_self b l)).subperm
    | gt =>
      simp only [insert, hab]
      exact ((List.subperm_cons b).mpr ih).trans (List.Perm.swap a b l).subperm

theorem insertMany_subperm (new l : List α) : (insertMany cmp new l).Subperm (new ++ l) := by
  induction new generalizing l with
  | nil => exact .refl _
  | cons a new ih =>
    have hinsert : (new ++ insert cmp a l).Subperm (new ++ a :: l) :=
      List.subperm_append_left new |>.mpr (insert_subperm a l)
    exact ((ih (insert cmp a l)).trans hinsert).trans List.perm_middle.subperm

theorem ofList_subperm (l : List α) : (ofList cmp l).Subperm l := by
  have hsub : (ofList cmp l).Subperm (l ++ []) := insertMany_subperm l []
  rwa [List.append_nil] at hsub

theorem eq_of_perm [TransCmp cmp] {l l' : List α} (hl : Increasing cmp l)
    (hl' : Increasing cmp l') (h : l.Perm l') : l = l' := by
  refine h.eq_of_pairwise (fun a b _ _ hab hba => ?_) hl hl'
  exact absurd (TransCmp.lt_trans hab hba) (by simp [ReflCmp.compare_self])

theorem eq_ofList [TransCmp cmp] {l l' : List α} (hl : Distinct cmp l) (h : l'.Perm l)
    (hle : l'.Pairwise fun a b => cmp a b ≠ .gt) : l' = ofList cmp l := by
  have hincr : Increasing cmp l' :=
    (hle.and ((distinct_perm h).mpr hl)).imp fun {a b} hab => by
      cases hcmp : cmp a b with
      | lt => rfl
      | eq => exact absurd hcmp hab.2
      | gt => exact absurd hcmp hab.1
  exact eq_of_perm hincr (ofList_increasing l) (h.trans (ofList_perm hl).symm)

theorem pairwise_mergeSort (cmp : α → α → Ordering) [TransCmp cmp] (l : List α) :
    (l.mergeSort fun a b => (cmp a b).isLE).Pairwise fun a b => (cmp a b).isLE := by
  refine List.pairwise_mergeSort (fun a b c => TransCmp.isLE_trans) (fun a b => ?_) l
  have hswap : cmp b a = (cmp a b).swap := OrientedCmp.eq_swap
  rw [hswap]
  cases cmp a b <;> rfl

theorem eq_of_subset [TransCmp cmp] {l l' : List α} (hl : Increasing cmp l)
    (hl' : Increasing cmp l') (hlen : l'.length ≤ l.length) (h : l ⊆ l') : l = l' := by
  have hnodup : l.Nodup := hl.imp fun hab hne => by
    subst hne
    simp [ReflCmp.compare_self] at hab
  exact eq_of_perm hl hl' ((hnodup.subperm h).perm_of_length_le hlen)

end LispFront.Sorted
