import LispFront.Proofs.Analysis.Parts.Analyzer
import LispFront.Proofs.Analysis.Relational.Limits

/-!
# The counter and the snapshot of an analysis

However an analysis ends, its counter stands where it stood before, and its snapshot is the
directory as it is then. So a call of the analyzer does what its levels do from a snapshot that is
current, and leaves a store from which the next call starts in the same way.
-/

namespace LispFront

open AnalyzerM Correspondence

def Analysis.Current (s : Analysis) : Prop := s.view = s.directory

theorem Analysis.Current.view_eq {s : Analysis} (h : s.Current) : s.view = s.directory := h

theorem Analysis.start_toStore {s : Analysis} (h : s.Current) (hdepth : s.depth = 0) :
    .start s.toStore = s := by
  obtain ⟨⟨directory, names⟩, view, depth⟩ := s
  obtain rfl : view = directory := h
  obtain rfl : depth = 0 := hdepth
  rfl

namespace AnalyzerM

variable {I J : Analysis → Prop} {x : AnalyzerM α}

theorem preserves_nested {limit : Nat} {form : Form} (henter : ∀ s, I s → J s.enter)
    (hleave : ∀ s, J s → I s.leave) (hx : x.Preserves J) : (nested limit form x).Preserves I := by
  intro s hs
  rw [run_nested]
  split
  · exact hs
  · exact hleave _ (hx _ (henter s hs))

theorem preserves_leaving (form : Form) (hx : x.Preserves I) : (leaving form x).Preserves I := by
  intro s hs
  have ht := hx s hs
  rw [run_leaving]
  split <;> rename_i hrun <;> rwa [hrun] at ht

theorem current_intern (ns name : Symbol) (metadata : FormMap) (form : Form) :
    (intern ns name metadata form).Preserves Analysis.Current := by
  intro s hs
  rw [run_intern]
  split
  · rfl
  · exact hs

theorem depth_intern (d : Nat) (ns name : Symbol) (metadata : FormMap) (form : Form) :
    (intern ns name metadata form).Preserves (·.depth = d) := by
  intro s hs
  rw [run_intern]
  split
  · exact hs
  · exact hs

end AnalyzerM

namespace Analyzer

variable {a : Analyzer}

theorem Level.preserves {recurse : Recurse} {form : Form} {env : Env} {x : AnalyzerM Node}
    {I : Analysis → Prop} (hx : a.Level recurse form env x)
    (hintern : ∀ ns name metadata, (AnalyzerM.intern ns name metadata form).Preserves I)
    (hdraw : drawLoopId.Preserves I) (hr : ∀ f e, (recurse f e).Preserves I) : x.Preserves I := by
  cases hx with
  | expander => exact fun s hs => hs
  | @expansion g =>
    refine preserves_leaving form fun s hs => ?_
    have ht := hr g env s hs
    unfold analyzeExpansion
    rw [run_bind]
    rcases hrun : (recurse g env).run.run s with ⟨e | n, t⟩
    · rwa [hrun] at ht
    · rwa [hrun] at ht
  | construct _ hx =>
    exact preserves_leaving form (hx.preserves (fun _ => hintern) hdraw fun f e _ => hr f e)

/-- Whatever is defined in between and however deep, at the end the snapshot is current. -/
theorem current_analyzeForm (a : Analyzer) (fuel : Nat) (form : Form) (env : Env) :
    (a.analyzeForm fuel form env).Preserves Analysis.Current := by
  induction fuel generalizing form env with
  | zero => exact fun s hs => hs
  | succ fuel ih =>
    refine preserves_nested (J := Analysis.Current) (fun _ hs => hs) (fun _ hs => hs) ?_
    exact (a.level_analyzeLevel _ form env).preserves (fun _ _ _ => current_intern _ _ _ _)
      (fun _ hs => hs) ih

/-- Every level that is entered is left. -/
theorem depth_analyzeForm (a : Analyzer) (fuel : Nat) (form : Form) (env : Env) (d : Nat) :
    (a.analyzeForm fuel form env).Preserves (·.depth = d) := by
  induction fuel generalizing form env d with
  | zero => exact fun s hs => hs
  | succ fuel ih =>
    refine preserves_nested (J := (·.depth = d + 1)) (fun s hs => ?_) (fun s hs => ?_) ?_
    · exact congrArg (· + 1) hs
    · exact congrArg (· - 1) hs
    · exact (a.level_analyzeLevel _ form env).preserves (fun _ _ _ => depth_intern _ _ _ _ _)
        (fun _ hs => hs) fun f e => ih f e (d + 1)

end Analyzer

abbrev Correspondence.counted (d d' : Nat) : Correspondence :=
  (exact fun _ => False).withRuns (fun s t => s.depth = d ∧ t = { s with depth := d' }) Eq

theorem counted_agrees {d d' : Nat} : (counted d d').Agrees where
  resolve := by
    rintro s _ ns x ⟨-, rfl⟩
    exact related_option_refl (fun _ => rfl) _
  isClass := by
    rintro s _ x ⟨-, rfl⟩
    rfl

theorem counted_lawful {d d' : Nat} : (counted d d').Lawful := by
  refine lawful_withRuns (exact_lawful fun _ _ h => h) counted_agrees ?_ ?_ ?_ ?_ ?_
  · rintro s _ ns name x m _ ⟨hs, rfl⟩ h
    cases h
    dsimp only
    rcases s.directory.intern ns name m with e | ⟨v, d⟩
    · exact .error e
    · exact .ok rfl ⟨hs, rfl⟩
  · rintro s _ ⟨-, rfl⟩
    rfl
  · rintro s _ ⟨hs, rfl⟩
    exact ⟨hs, rfl⟩
  · rintro x x' f _ hx rfl
    rw [eq_of_faultLike hx]
  · rintro e _ f _ rfl rfl
    rfl

section Outcomes

variable {d d' : Nat} {p : α → β → Prop} {r : Except AnalysisError α × Analysis}
  {r' : Except AnalysisError β × Analysis}

theorem outcomes_leave (h : (counted (d + 1) d').Outcomes p r r') :
    (counted d d').Outcomes p (r.1, r.2.leave) r' := by
  cases h with
  | ok hp ht =>
    obtain ⟨ht, rfl⟩ := ht
    exact .ok hp ⟨congrArg (· - 1) ht, rfl⟩
  | error he ht =>
    obtain ⟨ht, rfl⟩ := ht
    exact .error he ⟨congrArg (· - 1) ht, rfl⟩
  | escape he => exact he.elim

theorem eq_of_outcomes_counted {r r' : Except AnalysisError α × Analysis}
    (h : (counted d d).Outcomes Eq r r') : r = r' := by
  cases h with
  | ok ha ht =>
    obtain ⟨rfl, rfl⟩ := ht
    rw [ha]
  | error he ht =>
    obtain ⟨rfl, rfl⟩ := ht
    rw [he]
  | escape he => exact he.elim

end Outcomes

namespace Analyzer

variable {a : Analyzer} {fuel levels d : Nat} {s : Analysis}

theorem expands_counted {d d' : Nat} : (counted d d').Expands a a := by
  rintro f _ e e' rfl he
  rw [← eq_of_envLike (envLike_withRuns he)]
  unfold Analyzer.expansion
  split
  · exact relates_pure rfl
  · exact relates_throw rfl

theorem recurses_counted (d' : Nat) (hlevels : d + levels = a.maxDepth) (hfuel : levels < fuel) :
    (counted d d').Recurses (a.analyzeForm fuel) (a.analyzeUpTo levels) := by
  -- a level down, the counter has gained what the levels have lost
  induction levels generalizing d fuel with
  | zero =>
    rintro f _ e e' rfl - s _ ⟨hs, rfl⟩
    rw [run_analyzeForm_of_le (by omega)]
    exact .error rfl ⟨hs, rfl⟩
  | succ levels ih =>
    obtain ⟨fuel, rfl⟩ := Nat.exists_eq_add_one_of_ne_zero (Nat.ne_zero_of_lt hfuel)
    rintro f f' e e' hf he s _ ⟨hs, rfl⟩
    obtain rfl := eq_of_envLike (envLike_withRuns he)
    have hr : (counted (d + 1) d').Recurses (a.analyzeForm fuel) (a.analyzeUpTo levels) :=
      ih (by omega) (by omega)
    have hlook : (counted (d + 1) d').LooksUp a a :=
      looksUp_of_checkClasses counted_lawful counted_agrees rfl
    have hlevel := relates_analyzeLevel counted_lawful hr hf (.refl (fun _ => rfl) (fun _ => rfl) e)
      expands_counted hlook s.enter { s with depth := d' } ⟨congrArg (· + 1) hs, rfl⟩
    rw [run_analyzeForm_succ (by omega)]
    exact outcomes_leave hlevel

/-- At depth `d`, what the counter allows is what can be done with the levels left. -/
theorem run_analyzeForm_eq (hlevels : s.depth + levels = a.maxDepth) (hfuel : levels < fuel)
    (form : Form) (env : Env) :
    (a.analyzeForm fuel form env).run.run s = (a.analyzeUpTo levels form env).run.run s :=
  eq_of_outcomes_counted (recurses_counted s.depth hlevels hfuel form form env env rfl
    (.refl (fun _ => rfl) (fun _ => rfl) env) s s ⟨rfl, rfl⟩)

theorem run_analyzeIn (a : Analyzer) (form : Form) (env : Env) (s : Store) :
    (a.analyzeIn form env).run.run s =
      (((a.analyzeUpTo a.maxDepth form env).run.run (.start s)).1,
        ((a.analyzeUpTo a.maxDepth form env).run.run (.start s)).2.toStore) := by
  have hlevels : (Analysis.start s).depth + a.maxDepth = a.maxDepth := Nat.zero_add _
  rw [← run_analyzeForm_eq hlevels (Nat.lt_succ_self _) form env]
  rfl

variable {form : Form} {env : Env} {r : Except AnalysisError Node}

theorem run_analyzeIn_of_levels {s : Store} {t : Analysis}
    (h : (a.analyzeUpTo a.maxDepth form env).run.run (.start s) = (r, t)) :
    (a.analyzeIn form env).run.run s = (r, t.toStore) := by
  rw [run_analyzeIn, h]

/-- A fresh snapshot of the store that it leaves is the snapshot that it ended with. -/
theorem run_analyzeIn_iff {s t : Store} :
    (a.analyzeIn form env).run.run s = (r, t) ↔
      (a.analyzeUpTo a.maxDepth form env).run.run (.start s) = (r, .start t) := by
  have hrun : (a.analyzeForm (a.maxDepth + 1) form env).run.run (.start s) =
      (a.analyzeUpTo a.maxDepth form env).run.run (.start s) :=
    run_analyzeForm_eq (Nat.zero_add _) (Nat.lt_succ_self _) form env
  have hcurrent := current_analyzeForm a (a.maxDepth + 1) form env (.start s) rfl
  have hdepth := depth_analyzeForm a (a.maxDepth + 1) form env 0 (.start s) rfl
  rw [run_analyzeIn]
  rw [hrun] at hcurrent hdepth
  generalize (a.analyzeUpTo a.maxDepth form env).run.run (.start s) = p at hcurrent hdepth ⊢
  obtain ⟨r', t'⟩ := p
  constructor
  · rintro ⟨⟩
    rw [Analysis.start_toStore hcurrent hdepth]
  · rintro ⟨⟩
    rfl

end Analyzer

end LispFront
