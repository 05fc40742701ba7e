import LispFront.Form.Collection
import LispFront.Proofs.Form.Bare
import LispFront.Proofs.Sorted
import LispFront.Proofs.Symbol

/-!
# The order of forms

The order of forms is linear up to metadata. Transitivity is proved in a form that goes through
lexicographic comparison: of three elements in order, the outer two compare as the steps between
them do one after the other.
-/

namespace LispFront

open Std

/-- In order, `a` and `c` compare as `a` and `b`, then `b` and `c`. -/
def Chained (cmp : α → α → Ordering) (a b c : α) : Prop :=
  cmp a b ≠ .gt → cmp b c ≠ .gt → cmp a c = (cmp a b).then (cmp b c)

theorem chained_of (cmp : α → α → Ordering) [TransCmp cmp] (a b c : α) :
    Chained cmp a b c := by
  intro hab hbc
  cases h : cmp a b with
  | lt => exact TransCmp.lt_of_lt_of_isLE h (Ordering.ne_gt_iff_isLE.mp hbc)
  | eq => exact TransCmp.congr_left h
  | gt => exact absurd h hab

theorem eq_swap_of (cmp : α → α → Ordering) [OrientedCmp cmp] (a b : α) :
    cmp a b = (cmp b a).swap :=
  OrientedCmp.eq_swap

theorem transCmp_of_chained {cmp : α → α → Ordering} (hswap : ∀ a b, cmp a b = (cmp b a).swap)
    (h : ∀ a b c, Chained cmp a b c) : TransCmp cmp where
  eq_swap {a b} := hswap a b
  isLE_trans {a b c} hab hbc := by
    rw [h a b c (Ordering.isLE_iff_ne_gt.mp hab) (Ordering.isLE_iff_ne_gt.mp hbc)]
    cases hx : cmp a b with
    | lt => rfl
    | eq => exact hbc
    | gt => simp [hx] at hab

theorem chained_then {x y z x' y' z' : Ordering} (hz : x ≠ .gt → y ≠ .gt → z = x.then y)
    (hz' : x' ≠ .gt → y' ≠ .gt → z' = x'.then y') (hx : x.then x' ≠ .gt) (hy : y.then y' ≠ .gt) :
    z.then z' = (x.then x').then (y.then y') := by
  cases x <;> cases y <;> cases x' <;> simp_all

section Lexicographic

variable {cmp : α → α → Ordering} {xs : List α}

theorem compareLex_swap (h : ∀ x ∈ xs, ∀ y, cmp x y = (cmp y x).swap) (ys : List α) :
    List.compareLex cmp xs ys = (List.compareLex cmp ys xs).swap := by
  induction xs generalizing ys with
  | nil => cases ys <;> rfl
  | cons x xs ih =>
    obtain ⟨hx, hxs⟩ := List.forall_mem_cons.mp h
    cases ys with
    | nil => rfl
    | cons y ys =>
      rw [List.compareLex_cons_cons, List.compareLex_cons_cons, hx y, ih hxs ys, Ordering.swap_then]

theorem compareLex_chained (h : ∀ x ∈ xs, ∀ y z, Chained cmp x y z) (ys zs : List α) :
    Chained (List.compareLex cmp) xs ys zs := by
  induction xs generalizing ys zs with
  | nil =>
    intro hxy hyz
    cases ys with
    | nil => rfl
    | cons y ys =>
      cases zs with
      | nil => exact absurd rfl hyz
      | cons z zs => rfl
  | cons x xs ih =>
    intro hxy hyz
    obtain ⟨hx, hxs⟩ := List.forall_mem_cons.mp h
    cases ys with
    | nil => exact absurd rfl hxy
    | cons y ys =>
      cases zs with
      | nil => exact absurd rfl hyz
      | cons z zs =>
        rw [List.compareLex_cons_cons] at hxy hyz ⊢
        rw [List.compareLex_cons_cons, List.compareLex_cons_cons]
        exact chained_then (hx y z) (ih hxs ys zs) hxy hyz

end Lexicographic

namespace Form

inductive Alike : Form → Form → Prop
  | nil : Alike .nil .nil
  | bool {x y : Bool} : Alike (.bool x) (.bool y)
  | number {x y : Int64} : Alike (.number x) (.number y)
  | string {x y : String} : Alike (.string x) (.string y)
  | char {x y : Char} : Alike (.char x) (.char y)
  | keyword {x y : Keyword} : Alike (.keyword x) (.keyword y)
  | symbol {x y : Symbol} {m n : FormMap} : Alike (.symbol x m) (.symbol y n)
  | regex {x y : String} : Alike (.regex x) (.regex y)
  | list {xs ys : List Form} {m n : FormMap} : Alike (.list xs m) (.list ys n)
  | vector {xs ys : List Form} {m n : FormMap} : Alike (.vector xs m) (.vector ys n)
  | map {xs ys : List (Form × Form)} {m n : FormMap} : Alike (.map xs m) (.map ys n)
  | set {xs ys : List Form} {m n : FormMap} : Alike (.set xs m) (.set ys n)
  | var {x y : VarName} : Alike (.var x) (.var y)

theorem alike_of_rank_eq {a b : Form} (h : a.rank = b.rank) : Alike a b := by
  cases a <;> cases b <;> first | constructor | cases h

theorem cmp_of_rank_ne {a b : Form} (h : a.rank ≠ b.rank) : cmp a b = compare a.rank b.rank := by
  cases a <;> cases b <;> first | rfl | exact absurd rfl h

def cmpEntry (a b : Form × Form) : Ordering := (cmp a.1 b.1).then (cmp a.2 b.2)

theorem cmpElems_eq (xs ys : List Form) : cmpElems xs ys = List.compareLex cmp xs ys := by
  induction xs generalizing ys with
  | nil => cases ys <;> rfl
  | cons x xs ih =>
    cases ys with
    | nil => rfl
    | cons y ys => rw [cmpElems, List.compareLex_cons_cons, ih]

theorem cmpEntries_eq (xs ys : List (Form × Form)) :
    cmpEntries xs ys = List.compareLex cmpEntry xs ys := by
  induction xs generalizing ys with
  | nil => cases ys <;> rfl
  | cons x xs ih =>
    cases ys with
    | nil => rfl
    | cons y ys => rw [cmpEntries, List.compareLex_cons_cons, ih, cmpEntry]

theorem swap_of_alike {a b : Form} (h : Alike a b → cmp a b = (cmp b a).swap) :
    cmp a b = (cmp b a).swap := by
  by_cases hab : a.rank = b.rank
  · exact h (alike_of_rank_eq hab)
  · rw [cmp_of_rank_ne hab, cmp_of_rank_ne (Ne.symm hab)]
    exact OrientedCmp.eq_swap

theorem cmp_swap (a b : Form) : cmp a b = (cmp b a).swap := by
  induction a using induct generalizing b with
  | nil =>
    refine swap_of_alike fun h => ?_
    cases h
    rfl
  | bool | number | string | char | regex =>
    refine swap_of_alike fun h => ?_
    cases h
    exact eq_swap_of compare _ _
  | keyword =>
    refine swap_of_alike fun h => ?_
    cases h
    exact eq_swap_of Keyword.cmp _ _
  | symbol =>
    refine swap_of_alike fun h => ?_
    cases h
    exact eq_swap_of Symbol.cmp _ _
  | var =>
    refine swap_of_alike fun h => ?_
    cases h
    exact eq_swap_of VarName.cmp _ _
  | list es m ih | vector es m ih | set es m ih =>
    refine swap_of_alike fun h => ?_
    cases h
    simp only [cmp, cmpElems_eq]
    exact compareLex_swap ih _
  | map es m ih =>
    refine swap_of_alike fun h => ?_
    cases h
    simp only [cmp, cmpEntries_eq]
    refine compareLex_swap (fun x hx y => ?_) _
    rw [cmpEntry, (ih x hx).1, (ih x hx).2, ← Ordering.swap_then, cmpEntry]

theorem rank_le_of_cmp {a b : Form} (h : cmp a b ≠ .gt) : a.rank ≤ b.rank := by
  by_cases hab : a.rank = b.rank
  · exact Nat.le_of_eq hab
  · rw [cmp_of_rank_ne hab] at h
    exact Nat.isLE_compare.mp (Ordering.ne_gt_iff_isLE.mp h)

theorem cmp_of_rank_lt {a b : Form} (h : a.rank < b.rank) : cmp a b = .lt := by
  rw [cmp_of_rank_ne (Nat.ne_of_lt h)]
  exact Nat.compare_eq_lt.mpr h

theorem chained_of_alike {a b c : Form} (h : Alike a b → Alike b c → Chained cmp a b c) :
    Chained cmp a b c := by
  intro hab hbc
  have hrab := rank_le_of_cmp hab
  have hrbc := rank_le_of_cmp hbc
  -- where the kinds differ they decide alone, on either step
  by_cases hr : a.rank < b.rank
  · rw [cmp_of_rank_lt hr, cmp_of_rank_lt (Nat.lt_of_lt_of_le hr hrbc)]
    rfl
  · by_cases hr' : b.rank < c.rank
    · rw [cmp_of_rank_lt hr', cmp_of_rank_lt (Nat.lt_of_le_of_lt hrab hr')]
      cases hx : cmp a b with
      | lt | eq => rfl
      | gt => exact absurd hx hab
    · have hab' : Alike a b := alike_of_rank_eq (by omega)
      have hbc' : Alike b c := alike_of_rank_eq (by omega)
      exact h hab' hbc' hab hbc

theorem cmp_chained (a b c : Form) : Chained cmp a b c := by
  induction a using induct generalizing b c with
  | nil =>
    refine chained_of_alike fun h h' => ?_
    cases h
    cases h'
    exact fun _ _ => rfl
  | bool | number | string | char | regex =>
    refine chained_of_alike fun h h' => ?_
    cases h
    cases h'
    exact chained_of compare _ _ _
  | keyword =>
    refine chained_of_alike fun h h' => ?_
    cases h
    cases h'
    exact chained_of Keyword.cmp _ _ _
  | symbol =>
    refine chained_of_alike fun h h' => ?_
    cases h
    cases h'
    exact chained_of Symbol.cmp _ _ _
  | var =>
    refine chained_of_alike fun h h' => ?_
    cases h
    cases h'
    exact chained_of VarName.cmp _ _ _
  | list es m ih | vector es m ih | set es m ih =>
    refine chained_of_alike fun h h' => ?_
    cases h
    cases h'
    simp only [Chained, cmp, cmpElems_eq]
    exact compareLex_chained ih _ _
  | map es m ih =>
    refine chained_of_alike fun h h' => ?_
    cases h
    cases h'
    simp only [Chained, cmp, cmpEntries_eq]
    refine compareLex_chained (fun x hx y z => ?_) _ _
    exact chained_then ((ih x hx).1 y.1 z.1) ((ih x hx).2 y.2 z.2)

instance : TransCmp cmp := transCmp_of_chained cmp_swap cmp_chained

instance : TransCmp fun a b : Form × Form => a.1.cmp b.1 where
  eq_swap := OrientedCmp.eq_swap
  isLE_trans := TransCmp.isLE_trans

theorem cmpElems_bare {xs : List Form} (h : ∀ x ∈ xs, ∀ y, cmp x.bare (bare y) = cmp x y)
    (ys : List Form) : cmpElems (bareElems xs) (bareElems ys) = cmpElems xs ys := by
  induction xs generalizing ys with
  | nil => cases ys <;> rfl
  | cons x xs ih =>
    obtain ⟨hx, hxs⟩ := List.forall_mem_cons.mp h
    cases ys with
    | nil => rfl
    | cons y ys => simp only [bareElems, cmpElems, hx y, ih hxs ys]

theorem cmpEntries_bare {xs : List (Form × Form)}
    (h : ∀ x ∈ xs, (∀ y, cmp x.1.bare (bare y) = cmp x.1 y) ∧
      ∀ y, cmp x.2.bare (bare y) = cmp x.2 y) (ys : List (Form × Form)) :
    cmpEntries (bareEntries xs) (bareEntries ys) = cmpEntries xs ys := by
  induction xs generalizing ys with
  | nil => cases ys <;> rfl
  | cons x xs ih =>
    obtain ⟨⟨hk, hv⟩, hxs⟩ := List.forall_mem_cons.mp h
    cases ys with
    | nil => rfl
    | cons y ys => simp only [bareEntries, cmpEntries, hk y.1, hv y.2, ih hxs ys]

theorem cmp_bare (a b : Form) : cmp a.bare b.bare = cmp a b := by
  induction a using induct generalizing b with
  | list es m ih | vector es m ih | set es m ih =>
    cases b <;> first | rfl | exact cmpElems_bare ih _
  | map es m ih => cases b <;> first | rfl | exact cmpEntries_bare ih _
  | _ => cases b <;> rfl

theorem cmpElems_eq_iff {xs ys : List Form}
    (h : ∀ x ∈ xs, ∀ y, cmp x y = .eq ↔ bare x = bare y) :
    cmpElems xs ys = .eq ↔ bareElems xs = bareElems ys := by
  induction xs generalizing ys with
  | nil => cases ys <;> simp [cmpElems, bareElems]
  | cons x xs ih =>
    obtain ⟨hx, hxs⟩ := List.forall_mem_cons.mp h
    cases ys with
    | nil => simp [cmpElems, bareElems]
    | cons y ys => simp [cmpElems, bareElems, Ordering.then_eq_eq, hx y, ih hxs]

theorem cmpEntries_eq_iff {xs ys : List (Form × Form)}
    (h : ∀ x ∈ xs, (∀ y, cmp x.1 y = .eq ↔ bare x.1 = bare y) ∧
      ∀ y, cmp x.2 y = .eq ↔ bare x.2 = bare y) :
    cmpEntries xs ys = .eq ↔ bareEntries xs = bareEntries ys := by
  induction xs generalizing ys with
  | nil => cases ys <;> simp [cmpEntries, bareEntries]
  | cons x xs ih =>
    obtain ⟨⟨hk, hv⟩, hxs⟩ := List.forall_mem_cons.mp h
    cases ys with
    | nil => simp [cmpEntries, bareEntries]
    | cons y ys => simp [cmpEntries, bareEntries, Ordering.then_eq_eq, hk y.1, hv y.2, ih hxs]

theorem cmp_eq_iff_bare {a b : Form} : cmp a b = .eq ↔ bare a = bare b := by
  induction a using induct generalizing b with
  | list es m ih | vector es m ih | set es m ih =>
    cases b <;> simp [cmp, bare, rank, cmpElems_eq_iff ih]
  | map es m ih => cases b <;> simp [cmp, bare, rank, cmpEntries_eq_iff ih]
  | _ => cases b <;> simp [cmp, bare, rank, LawfulEqCmp.compare_eq_iff_eq]

theorem cmp_beq_eq (a b : Form) : (cmp a b == .eq) = (a == b) := by
  apply Bool.eq_iff_iff.mpr
  rw [beq_iff_eq, cmp_eq_iff_bare]
  exact beq_iff_bare.symm

theorem increasing_bare {es : List Form} :
    Sorted.Increasing cmp (es.map bare) ↔ Sorted.Increasing cmp es :=
  Sorted.increasing_map cmp_bare

theorem increasing_bareEntries {es : List (Form × Form)} :
    Sorted.Increasing (fun a b => a.1.cmp b.1) (bareEntries es) ↔
      Sorted.Increasing (fun a b => a.1.cmp b.1) es := by
  rw [bareEntries_eq]
  exact Sorted.increasing_map fun a b => cmp_bare a.1 b.1

end Form

end LispFront
