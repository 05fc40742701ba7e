import LispFront.Proofs.Analysis.Relational.Renumbered

/-!
# Analyses that differ in their failures only

The exact correspondence takes nothing for the same but what is equal. An analysis with fewer levels
and one with more correspond exactly, up to errors about the depth.
-/

namespace LispFront

open AnalyzerM

namespace Correspondence

/-- Equality, but for the errors of the first analysis that escape. -/
def exact (escapes : AnalysisError → Prop) : Correspondence where
  form := Eq
  node := Eq
  var := Eq
  loopId := Eq
  store := Eq
  error := Eq
  escapes

variable {escapes : AnalysisError → Prop}

/-- It is renumbering with nothing renamed. -/
theorem exact_eq (escapes : AnalysisError → Prop) : exact escapes = renumbered id 0 escapes := by
  unfold exact renumbered
  congr
  · funext n n'
    rw [n.mapIds_id]
  · funext s t
    rw [s.skip_zero]

theorem envLike_refl (e : Env) : e.Like (exact escapes) e := .refl (fun _ => rfl) (fun _ => rfl) e

theorem eq_of_envLike {e e' : Env} (h : e.Like (exact escapes) e') : e = e' := by
  rw [exact_eq] at h
  rw [← mapIds_of_envLike h, e.mapIds_id]

theorem eq_of_opLike {op op' : Op} (h : op.Like (exact escapes) op') : op = op' := by
  rw [exact_eq] at h
  rw [← mapIds_of_opLike h, op.mapIds_id]

theorem exact_agrees : (exact escapes).Agrees := by
  rw [exact_eq]
  exact renumbered_agrees

theorem exact_lawful (hwithin : ∀ e f, escapes e → escapes (e.within f)) :
    (exact escapes).Lawful := by
  rw [exact_eq]
  exact renumbered_lawful (fun s => by rw [s.after_zero]; rfl) hwithin

theorem relates_refl (x : AnalyzerM α) : (exact escapes).Relates x x Eq := by
  rintro s _ rfl
  rcases x.run.run s with ⟨e | a, t⟩
  · exact .error rfl rfl
  · exact .ok rfl rfl

theorem recurses_refl (recurse : Recurse) : (exact escapes).Recurses recurse recurse := by
  rintro f _ e e' rfl he
  rw [← eq_of_envLike he]
  exact relates_refl _

end Correspondence

open Correspondence

variable {escapes : AnalysisError → Prop} {a a' : Analyzer}

theorem expands_of_expand_eq (h : a.expand = a'.expand) : (exact escapes).Expands a a' := by
  rintro f _ e e' rfl he
  have hexpansion : a.expansion f e = a'.expansion f e := by
    unfold Analyzer.expansion
    rw [h]
  rw [← eq_of_envLike he, ← hexpansion]
  exact relates_refl _

/-- More levels never change an outcome other than that there are too few. -/
theorem recurses_of_le (hwithin : ∀ e f, escapes e → escapes (e.within f))
    (hdeep : ∀ f, escapes (.of (.tooDeep a.maxDepth) f)) (hexpand : a.expand = a'.expand)
    (hclasses : a.checkClasses = a'.checkClasses) {levels levels' : Nat} (h : levels ≤ levels') :
    (exact escapes).Recurses (a.analyzeUpTo levels) (a'.analyzeUpTo levels') := by
  have hC := exact_lawful hwithin
  induction levels generalizing levels' with
  | zero => exact fun f f' e e' hf he => relates_escape (hdeep f)
  | succ levels ih =>
    obtain ⟨levels', rfl⟩ := Nat.exists_eq_add_one_of_ne_zero (Nat.ne_zero_of_lt h)
    intro f f' e e' hf he
    exact relates_analyzeLevel hC (ih (Nat.le_of_succ_le_succ h)) hf he
      (expands_of_expand_eq hexpand) (looksUp_of_checkClasses hC exact_agrees hclasses)

end LispFront
