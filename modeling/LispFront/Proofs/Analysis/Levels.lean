import LispFront.Analysis.Analyzer
import LispFront.Proofs.Analysis.Yields

/-!
# Levels of nesting

An analysis counts upwards how deep it is; what it can still do is told by how many levels are left.
Nothing but the limit depends on the counter, so the levels left make a recursion without one, and
proofs go by induction on them.
-/

namespace LispFront

open AnalyzerM

namespace Analyzer

/-- Analyzes a form with so many levels left, whatever the counter says. -/
def analyzeUpTo (a : Analyzer) : Nat → Recurse
  | 0 => fun form _ => AnalyzerM.fail (.tooDeep a.maxDepth) form
  | levels + 1 => a.analyzeLevel (a.analyzeUpTo levels)

variable {a : Analyzer} {s : Analysis}

theorem run_analyzeForm_succ (h : s.depth < a.maxDepth) (fuel : Nat) (form : Form) (env : Env) :
    (a.analyzeForm (fuel + 1) form env).run.run s =
      (((a.analyzeLevel (a.analyzeForm fuel) form env).run.run s.enter).1,
        ((a.analyzeLevel (a.analyzeForm fuel) form env).run.run s.enter).2.leave) := by
  rw [analyzeForm, run_nested, if_neg (Nat.not_le_of_lt h)]

theorem run_analyzeForm_of_le (h : a.maxDepth ≤ s.depth) (fuel : Nat) (form : Form) (env : Env) :
    (a.analyzeForm fuel form env).run.run s = (.error (.of (.tooDeep a.maxDepth) form), s) := by
  cases fuel with
  | zero => rfl
  | succ fuel => rw [analyzeForm, run_nested, if_pos h]

end Analyzer

end LispFront
