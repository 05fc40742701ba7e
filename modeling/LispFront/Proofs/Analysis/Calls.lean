import LispFront.Proofs.Analysis.Levels

/-!
# Analyzing a call

A list that the expander leaves alone is analyzed by what its head says. What a construct itself
complains about is located at the list, if it has a location at all.
-/

namespace LispFront

open AnalyzerM

namespace Form

def Calls (f : Form) (op : String) (args : List Form) : Prop :=
  ∃ m m', f = .list (.symbol (.plain op) m :: args) m'

variable {f : Form} {op : String} {args : List Form}

theorem Calls.isCallTo (h : f.Calls op args) : f.isCallTo op := by
  obtain ⟨m, m', rfl⟩ := h
  exact beq_self_eq_true (Symbol.plain op)

theorem calls_of_isCallTo (h : f.isCallTo op) : ∃ args, f.Calls op args := by
  unfold Form.isCallTo at h
  split at h
  · rename_i s m args m'
    obtain rfl : s = .plain op := eq_of_beq h
    exact ⟨args, m, m', rfl⟩
  · cases h

end Form

theorem SpecialForm.ofHead?_name (k : SpecialForm) (m : FormMap) :
    SpecialForm.ofHead? (.symbol (.plain k.name) m) = some k := by
  cases k <;> rfl

theorem AnalysisError.within_of (fault : AnalysisFault) (form : Form) :
    (AnalysisError.of fault form).within form = .of fault form := by
  simp [within, of]

def Analyzer.plain : Analyzer := { home := .plain "user" }

section Calls

variable {a : Analyzer} {levels : Nat} {m m' : FormMap} {args : List Form} {env : Env} {g : Form}

theorem analyzeLevel_call {x : Symbol} (recurse : Recurse)
    (hg : a.expand (.list (.symbol x m :: args) m') env = .ok g)
    (heq : g == .list (.symbol x m :: args) m') :
    a.analyzeLevel recurse (.list (.symbol x m :: args) m') env =
      within (.list (.symbol x m :: args) m') (Analyzer.analyzeCall recurse
        (.list (.symbol x m :: args) m') (.symbol x m) args env) := by
  change a.analyzeList recurse _ (.symbol x m) args env = _
  unfold Analyzer.analyzeList Analyzer.expansion
  rw [hg, pure_bind, if_pos heq]

theorem run_analyzeUpTo_call {x : Symbol}
    (hg : a.expand (.list (.symbol x m :: args) m') env = .ok g)
    (heq : g == .list (.symbol x m :: args) m') (s : Analysis) :
    (a.analyzeUpTo (levels + 1) (.list (.symbol x m :: args) m') env).run.run s =
      (within (.list (.symbol x m :: args) m') (Analyzer.analyzeCall (a.analyzeUpTo levels)
        (.list (.symbol x m :: args) m') (.symbol x m) args env)).run.run s := by
  rw [Analyzer.analyzeUpTo, analyzeLevel_call _ hg heq]

theorem run_analyzeUpTo_of_calls {k : SpecialForm} {form : Form} (hform : form.Calls k.name args)
    (hg : a.expand form env = .ok g) (heq : g == form) (s : Analysis) :
    ∃ m, (a.analyzeUpTo (levels + 1) form env).run.run s =
      (within form (Analyzer.analyzeCall (a.analyzeUpTo levels) form (.symbol (.plain k.name) m)
        args env)).run.run s := by
  obtain ⟨m, m', rfl⟩ := hform
  exact ⟨m, run_analyzeUpTo_call hg heq s⟩

end Calls

end LispFront
