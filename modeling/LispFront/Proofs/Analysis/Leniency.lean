import LispFront.Proofs.Analysis.Counter

/-!
# Names that need not be classes

A lenient analyzer takes a name that nothing else has for a class, a strict one refuses it unless
the class is known. The strict analysis and the lenient one of the same form are the same, up to the
first name that the strict one refuses.
-/

namespace LispFront

open AnalyzerM Correspondence

def AnalysisError.IsUnresolved (e : AnalysisError) : Prop := ∃ s, e.fault = .unresolved s

namespace Analyzer

variable {a a' : Analyzer}

theorem looksUp_of_lenient (hlenient : a'.checkClasses = false) :
    (exact AnalysisError.IsUnresolved).LooksUp a a' := by
  rintro s m _ env env' hform henv
  obtain rfl := (Form.symbol.inj hform).2
  obtain rfl := eq_of_envLike henv
  have hrefl {α : Type} (x : AnalyzerM α) :
      (exact AnalysisError.IsUnresolved).Relates x x Eq := relates_refl x
  unfold analyzeName
  cases env.local? s with
  | some b => exact hrefl _
  | none =>
    refine relates_bind (hrefl directory) ?_
    rintro d _ rfl
    cases d.resolve? env.ns s with
    | some v => exact hrefl _
    | none =>
      cases s.ns with
      | some cls => exact hrefl _
      | none =>
        by_cases hknown : !a.checkClasses || d.isClass s
        · simp only [hknown, hlenient, Bool.not_false, Bool.true_or, if_true]
          exact hrefl _
        · simp only [hknown, Bool.false_eq_true, if_false]
          exact relates_escape ⟨s, rfl⟩

theorem recurses_of_lenient (a a' : Analyzer) (hexpand : a.expand = a'.expand)
    (hdepth : a.maxDepth = a'.maxDepth) (hlenient : a'.checkClasses = false) (levels : Nat) :
    (exact AnalysisError.IsUnresolved).Recurses (a.analyzeUpTo levels) (a'.analyzeUpTo levels) := by
  have hC : (exact AnalysisError.IsUnresolved).Lawful := exact_lawful fun _ _ he => he
  induction levels with
  | zero =>
    intro form form' env env' hform henv
    unfold analyzeUpTo
    rw [hdepth]
    exact relates_fail_same hC hform
  | succ levels ih =>
    intro form form' env env' hform henv
    exact relates_analyzeLevel hC ih hform henv (expands_of_expand_eq hexpand)
      (looksUp_of_lenient hlenient)

theorem run_strict_eq_or (a : Analyzer) (form : Form) (env : Env) (s : Store) :
    ({ a with checkClasses := true }.analyzeIn form env).run.run s =
        ({ a with checkClasses := false }.analyzeIn form env).run.run s ∨
      ∃ e t, ({ a with checkClasses := true }.analyzeIn form env).run.run s = (.error e, t) ∧
        e.IsUnresolved := by
  have hrecurses := recurses_of_lenient { a with checkClasses := true }
    { a with checkClasses := false } rfl rfl rfl a.maxDepth
  have hruns := hrecurses form form env env rfl (envLike_refl env) (.start s) (.start s) rfl
  rw [run_analyzeIn, run_analyzeIn]
  generalize (analyzeUpTo { a with checkClasses := true } _ form env).run.run _ = r at hruns ⊢
  generalize (analyzeUpTo { a with checkClasses := false } _ form env).run.run _ = r' at hruns ⊢
  cases hruns with
  | ok hn ht =>
    cases hn
    cases ht
    exact .inl rfl
  | error he ht =>
    cases he
    cases ht
    exact .inl rfl
  | escape he => exact .inr ⟨_, _, rfl, he⟩

/-- What a strict analysis gives, a tree or an error other than about an unresolved name, a lenient
one gives as well, with the same store; and where the lenient one fails, so does the strict one, in
the same way or because of an unresolved name. -/
theorem lenient_refines_strict (a : Analyzer) (form : Form) (env : Env) (s : Store) :
    let strict := ({ a with checkClasses := true }.analyzeIn form env).run.run s
    let lenient := ({ a with checkClasses := false }.analyzeIn form env).run.run s
    (∀ n t, strict = (.ok n, t) → lenient = (.ok n, t)) ∧
    (∀ e t, strict = (.error e, t) → ¬e.IsUnresolved → lenient = (.error e, t)) ∧
    ∀ e t, lenient = (.error e, t) →
      ∃ e' t', strict = (.error e', t') ∧ (e'.IsUnresolved ∨ e' = e ∧ t' = t) := by
  intro strict lenient
  rcases run_strict_eq_or a form env s with hsame | ⟨e, t, hstrict, he⟩
  · have hsame : strict = lenient := hsame
    rw [hsame]
    exact ⟨fun n t h => h, fun e t h _ => h, fun e t h => ⟨e, t, h, .inr ⟨rfl, rfl⟩⟩⟩
  · have hstrict : strict = (.error e, t) := hstrict
    rw [hstrict]
    refine ⟨nofun, fun e' t' h hne => ?_, fun _ _ _ => ⟨e, t, rfl, .inl he⟩⟩
    cases h
    exact absurd he hne

theorem lenient_refines_strict_vector :
    let a : Analyzer := { home := .plain "user" }
    let env : Env := .empty (.plain "user")
    let s : Store := ⟨.empty, .start⟩
    let recur : Form := .call "recur" []
    (∃ n, ({ a with checkClasses := false }.analyzeIn (.vector [.nil] []) env).run.run s =
      (.ok n, s)) ∧
    (∃ e, e.fault = .recurOutsideTail ∧
      ({ a with checkClasses := false }.analyzeIn recur env).run.run s = (.error e, s)) ∧
    ∃ e e', e.fault = .recurOutsideTail ∧ e'.IsUnresolved ∧
      ({ a with checkClasses := false }.analyzeIn (.vector [.sym "y", recur] []) env).run.run s =
        (.error e, s) ∧
      ({ a with checkClasses := true }.analyzeIn (.vector [.sym "y", recur] []) env).run.run s =
        (.error e', s) := by
  intro a env s recur
  refine ⟨⟨_, (lenient_refines_strict a (.vector [.nil] []) env s).1 _ _ rfl⟩,
    ⟨_, rfl, (lenient_refines_strict a recur env s).2.1 _ _ rfl nofun⟩, ?_⟩
  obtain ⟨e', t', hstrict, -⟩ :=
    (lenient_refines_strict a (.vector [.sym "y", recur] []) env s).2.2 _ _ rfl
  cases hstrict
  exact ⟨_, _, rfl, ⟨_, rfl⟩, rfl, rfl⟩

end Analyzer

end LispFront
