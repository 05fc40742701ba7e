import LispFront.Proofs.Analysis.Counter

/-!
# The depth limit is only a guard

An analysis that does not run into its limit does not depend on it: under a higher one it ends in
the same way, with the same store. An analysis without end runs into every limit, and has then done
nothing to the store.
-/

namespace LispFront

open AnalyzerM Correspondence

def AnalysisError.IsTooDeep (e : AnalysisError) : Prop := ∃ limit, e.fault = .tooDeep limit

namespace Analyzer

structure ExpandsForever (a : Analyzer) (env : Env) (forms : Nat → Form) : Prop where
  isExpanded : ∀ i, (forms i).isExpanded
  expand : ∀ i, a.expand (forms i) env = .ok (forms (i + 1))
  changes : ∀ i, (forms (i + 1) == forms i) = false

variable {a : Analyzer} {levels : Nat} {form expansion : Form} {env : Env} {s t : Analysis}

theorem run_of_le {a' : Analyzer} {levels' : Nat} {r : Except AnalysisError Node}
    (hexpand : a.expand = a'.expand) (hclasses : a.checkClasses = a'.checkClasses)
    (hle : levels ≤ levels') (h : (a.analyzeUpTo levels form env).run.run s = (r, t))
    (hr : ∀ e, r = .error e → ¬e.IsTooDeep) :
    (a'.analyzeUpTo levels' form env).run.run s = (r, t) := by
  have hrecurses : (exact AnalysisError.IsTooDeep).Recurses (a.analyzeUpTo levels)
      (a'.analyzeUpTo levels') :=
    recurses_of_le (fun _ _ he => he) (fun _ => ⟨_, rfl⟩) hexpand hclasses hle
  have hmore := hrecurses form form env env rfl (envLike_refl env) s s rfl
  rw [h] at hmore
  generalize (a'.analyzeUpTo levels' form env).run.run s = r' at hmore ⊢
  cases hmore with
  | ok hn ht =>
    cases hn
    cases ht
    rfl
  | error he ht =>
    cases he
    cases ht
    rfl
  | escape he => exact absurd he (hr _ rfl)

theorem run_expansion {e : AnalysisError} (hform : form.isExpanded)
    (hexpand : a.expand form env = .ok expansion) (hne : (expansion == form) = false)
    (h : (a.analyzeUpTo levels expansion env).run.run s = (.error e, t)) :
    ∃ e', (a.analyzeUpTo (levels + 1) form env).run.run s = (.error e', t) ∧
      e'.fault = e.fault ∧ e'.form = e.form := by
  have hexpansion : a.expansion form env = pure expansion := by
    rw [Analyzer.expansion, hexpand]
  have hrun : (analyzeExpansion (a.analyzeUpTo levels) form expansion env).run.run s =
      (.error e, t) := by
    rw [analyzeExpansion, run_bind, h]
  cases form with
  | symbol x m =>
    refine ⟨e, ?_, rfl, rfl⟩
    change (a.analyzeSymbol (a.analyzeUpTo levels) (.symbol x m) x env).run.run s = _
    rw [analyzeSymbol, hexpansion, pure_bind, hne]
    exact hrun
  | list es m =>
    cases es with
    | nil => cases hform
    | cons head args =>
      refine ⟨e.within (.list (head :: args) m), ?_, rfl, rfl⟩
      change (a.analyzeList (a.analyzeUpTo levels) (.list (head :: args) m) head args env).run.run
        s = _
      unfold analyzeList
      split
      · cases hform
      · rw [hexpansion, pure_bind, run_within, hne]
        simp [hrun]
  | _ => cases hform

namespace ExpandsForever

variable {forms : Nat → Form}

theorem fails (h : a.ExpandsForever env forms) (levels i : Nat) (s : Analysis) :
    ∃ e, (a.analyzeUpTo levels (forms i) env).run.run s = (.error e, s) ∧
      e.fault = .tooDeep a.maxDepth ∧ e.form = forms (i + levels) := by
  induction levels generalizing i with
  | zero => exact ⟨_, rfl, rfl, rfl⟩
  | succ levels ih =>
    obtain ⟨e, hrun, hfault, hform⟩ := ih (i + 1)
    obtain ⟨e', hrun', hfault', hform'⟩ :=
      run_expansion (h.isExpanded i) (h.expand i) (h.changes i) hrun
    refine ⟨e', hrun', hfault'.trans hfault, ?_⟩
    rw [hform', hform]
    congr 1
    omega

theorem withMaxDepth (h : a.ExpandsForever env forms) (limit : Nat) :
    ExpandsForever { a with maxDepth := limit } env forms :=
  ⟨h.isExpanded, h.expand, h.changes⟩

end ExpandsForever

/-- What an analysis gives short of the limit is the same under every higher limit, and every limit
stops an expansion that never ends, with nothing done. -/
theorem maxDepth_guards (a : Analyzer) (form : Form) (env : Env) (s : Store) :
    (∀ limit limit', limit ≤ limit' → ∀ r t,
      ({ a with maxDepth := limit }.analyzeIn form env).run.run s = (r, t) →
      (∀ e, r = .error e → ¬e.IsTooDeep) →
      ({ a with maxDepth := limit' }.analyzeIn form env).run.run s = (r, t)) ∧
    ∀ forms, forms 0 = form → a.ExpandsForever env forms → ∀ limit,
      ∃ e, ({ a with maxDepth := limit }.analyzeIn form env).run.run s = (.error e, s) ∧
        e.fault = .tooDeep limit ∧ e.form = forms limit := by
  constructor
  · intro limit limit' hle r t h hr
    rw [run_analyzeIn_iff] at h ⊢
    exact run_of_le (a := { a with maxDepth := limit }) rfl rfl hle h hr
  · rintro forms rfl h limit
    obtain ⟨e, hrun, hfails⟩ := (h.withMaxDepth limit).fails limit 0 (.start s)
    rw [Nat.zero_add] at hfails
    exact ⟨e, run_analyzeIn_iff.mpr hrun, hfails⟩

def backAndForth : Analyzer where
  home := .plain "user"
  expand f _ := .ok (if f == .sym "x" then .sym "y" else if f == .sym "y" then .sym "x" else f)

theorem backAndForth_expandsForever (env : Env) :
    backAndForth.ExpandsForever env fun i => if i % 2 = 0 then .sym "x" else .sym "y" := by
  have hparity (i : Nat) : i % 2 = 0 ∧ (i + 1) % 2 = 1 ∨ i % 2 = 1 ∧ (i + 1) % 2 = 0 := by omega
  constructor <;> intro i <;> rcases hparity i with ⟨hi, hnext⟩ | ⟨hi, hnext⟩
  all_goals
    simp only [hi, hnext]
    rfl

theorem maxDepth_guards_vector :
    (∃ n, ({ backAndForth with maxDepth := 2 }.analyzeIn (.vector [.nil] [])
        (.empty (.plain "user"))).run.run ⟨.empty, .start⟩ = (.ok n, ⟨.empty, .start⟩) ∧
      ({ backAndForth with maxDepth := 7 }.analyzeIn (.vector [.nil] [])
        (.empty (.plain "user"))).run.run ⟨.empty, .start⟩ = (.ok n, ⟨.empty, .start⟩)) ∧
    backAndForth.ExpandsForever (.empty (.plain "user"))
      (fun i => if i % 2 = 0 then .sym "x" else .sym "y") ∧
    ∃ e, ({ backAndForth with maxDepth := 5 }.analyzeIn (.sym "x")
        (.empty (.plain "user"))).run.run ⟨.empty, .start⟩ = (.error e, ⟨.empty, .start⟩) ∧
      e.fault = .tooDeep 5 ∧ e.form = .sym "y" := by
  have hforever := backAndForth_expandsForever (.empty (.plain "user"))
  refine ⟨⟨_, rfl, ?_⟩, hforever, ?_⟩
  · exact (maxDepth_guards backAndForth _ _ _).1 2 7 (by decide) _ _ rfl nofun
  · exact (maxDepth_guards backAndForth (.sym "x") _ _).2 _ rfl hforever 5

end Analyzer

end LispFront
