import LispFront.Proofs.Analysis.Relational.Refinement

/-!
# Analyses under different limits

An error about the depth names the limit. Two analyses with as many levels left, under different
limits, differ in nothing else.
-/

namespace LispFront

open AnalyzerM

namespace Correspondence

def withRuns (C : Correspondence) (S : Analysis → Analysis → Prop)
    (R : AnalysisError → AnalysisError → Prop) : Correspondence :=
  { C with store := S, error := R }

section WithRuns

variable {C : Correspondence} {S : Analysis → Analysis → Prop}
  {R : AnalysisError → AnalysisError → Prop}

theorem withRuns_refines (C : Correspondence) : (C.withRuns S R).Refines C := ⟨id, id, id, id⟩

theorem envLike_withRuns {e e' : Env} (h : e.Like (C.withRuns S R) e') : e.Like C e' :=
  h.mono (withRuns_refines C)

theorem lawful_withRuns (hC : C.Lawful) (hagrees : (C.withRuns S R).Agrees)
    (hintern : ∀ {s t : Analysis} (ns name x : Symbol) {m m' : FormMap}, S s t →
      C.form (.symbol x m) (.symbol x m') → (C.withRuns S R).Interned s t
        (s.directory.intern ns name m) (t.directory.intern ns name m'))
    (hloopId : ∀ {s t : Analysis}, S s t →
      C.loopId (s.names.peek "loop_") (t.names.peek "loop_"))
    (hadvance : ∀ {s t : Analysis}, S s t →
      S { s with names := s.names.advance } { t with names := t.names.advance })
    (hof : ∀ {x x' : AnalysisFault} {f f' : Form}, x.Like C.form x' → C.form f f' →
      R (.of x f) (.of x' f'))
    (hwithin : ∀ {e e' : AnalysisError} {f f' : Form}, R e e' → C.form f f' →
      R (e.within f) (e'.within f')) : (C.withRuns S R).Lawful where
  toReadsAlike := hC.toReadsAlike
  resolve := hagrees.resolved
  intern ns name x _ _ hst hm := hintern ns name x hst hm
  loopId := hloopId
  advance := hadvance
  node hop hf he := hC.node (hop.mono (withRuns_refines C)) hf (envLike_withRuns he)
  expandedFrom := hC.expandedFrom
  error := hof
  within := hwithin
  escapes_within := hC.escapes_within

end WithRuns

end Correspondence

def AnalysisError.SameButLimit (limit limit' : Nat) (e e' : AnalysisError) : Prop :=
  e' = e ∨ e.fault = .tooDeep limit ∧ e' = { e with fault := .tooDeep limit' }

open Correspondence

variable {limit limit' : Nat}

abbrev Correspondence.acrossLimits (limit limit' : Nat) : Correspondence :=
  (exact fun _ => False).withRuns Eq (AnalysisError.SameButLimit limit limit')

theorem acrossLimits_agrees : (acrossLimits limit limit').Agrees := by
  have h : (exact fun _ => False).Agrees := exact_agrees
  exact ⟨h.resolve, h.isClass⟩

theorem acrossLimits_lawful : (acrossLimits limit limit').Lawful := by
  refine lawful_withRuns (exact_lawful fun _ _ h => h) acrossLimits_agrees ?_ ?_ ?_ ?_ ?_
  · rintro s _ ns name x m _ rfl h
    cases h
    rcases s.directory.intern ns name m with e | ⟨v, d⟩
    · exact .error e
    · exact .ok rfl rfl
  · rintro s _ rfl
    rfl
  · rintro s _ rfl
    rfl
  · rintro x x' f _ hx rfl
    exact .inl (by rw [eq_of_faultLike hx])
  · rintro e _ f _ (rfl | ⟨hfault, rfl⟩) rfl
    · exact .inl rfl
    · exact .inr ⟨hfault, rfl⟩

theorem relates_acrossLimits_refl (x : AnalyzerM α) :
    (acrossLimits limit limit').Relates x x Eq := by
  rintro s _ rfl
  rcases x.run.run s with ⟨e | a, t⟩
  · exact .error (.inl rfl) rfl
  · exact .ok rfl rfl

theorem recurses_acrossLimits (a : Analyzer) (limit limit' levels : Nat) :
    (acrossLimits limit limit').Recurses ({ a with maxDepth := limit }.analyzeUpTo levels)
      ({ a with maxDepth := limit' }.analyzeUpTo levels) := by
  have hC : (acrossLimits limit limit').Lawful := acrossLimits_lawful
  induction levels with
  | zero =>
    rintro f _ e e' rfl he
    exact relates_throw (.inr ⟨rfl, rfl⟩)
  | succ levels ih =>
    intro f f' e e' hf he
    refine relates_analyzeLevel hC ih hf he ?_ ?_
    · rintro g _ e e' rfl he
      rw [← eq_of_envLike (envLike_withRuns he)]
      exact relates_acrossLimits_refl _
    · exact looksUp_of_checkClasses hC acrossLimits_agrees rfl

section Outcomes

variable {r r' : Except AnalysisError α × Analysis} {t : Analysis}

theorem ok_iff_of_acrossLimits (h : (acrossLimits limit limit').Outcomes Eq r r') (b : α) :
    r' = (.ok b, t) ↔ r = (.ok b, t) := by
  cases h with
  | ok hab hst =>
    cases hab
    cases hst
    rfl
  | error he hst => exact ⟨nofun, nofun⟩
  | escape he => exact he.elim

theorem error_of_acrossLimits (h : (acrossLimits limit limit').Outcomes Eq r r')
    {e : AnalysisError} (hr : r = (.error e, t)) :
    ∃ e', r' = (.error e', t) ∧ e.SameButLimit limit limit' e' := by
  cases h with
  | ok hab hst => cases hr
  | error he hst =>
    cases hst
    cases hr
    exact ⟨_, rfl, he⟩
  | escape he => exact he.elim

end Outcomes

end LispFront
