import LispFront.Symbol

/-!
# The order of names

Names, keywords and the names of vars are compared part by part, so the orders of the parts carry
over: each comparison is a linear order, and what compares equal is equal.
-/

namespace LispFront

open Std

instance : TransCmp Symbol.cmp :=
  inferInstanceAs (TransCmp (compareLex (compareOn Symbol.ns) (compareOn Symbol.name)))

instance : LawfulEqCmp Symbol.cmp where
  eq_of_compare {a b} h := by
    obtain ⟨hns, hname⟩ := Ordering.then_eq_eq.mp h
    cases a
    cases b
    exact congr (congrArg Symbol.mk (LawfulEqCmp.eq_of_compare hns))
      (LawfulEqCmp.eq_of_compare hname)

instance : TransCmp Keyword.cmp :=
  inferInstanceAs (TransCmp (compareLex (compareOn Keyword.ns) (compareOn Keyword.name)))

instance : LawfulEqCmp Keyword.cmp where
  eq_of_compare {a b} h := by
    obtain ⟨hns, hname⟩ := Ordering.then_eq_eq.mp h
    cases a
    cases b
    exact congr (congrArg Keyword.mk (LawfulEqCmp.eq_of_compare hns))
      (LawfulEqCmp.eq_of_compare hname)

instance : TransCmp VarName.cmp :=
  letI : Ord Symbol := ⟨Symbol.cmp⟩
  haveI : TransOrd Symbol := inferInstanceAs (TransCmp Symbol.cmp)
  inferInstanceAs (TransCmp (compareLex (compareOn VarName.ns) (compareOn VarName.name)))

instance : LawfulEqCmp VarName.cmp where
  eq_of_compare {a b} h := by
    obtain ⟨hns, hname⟩ := Ordering.then_eq_eq.mp h
    cases a
    cases b
    exact congr (congrArg VarName.mk (LawfulEqCmp.eq_of_compare hns))
      (LawfulEqCmp.eq_of_compare hname)

end LispFront
