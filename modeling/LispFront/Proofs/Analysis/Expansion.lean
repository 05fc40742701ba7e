import LispFront.Proofs.Analysis.Counter
import LispFront.Proofs.Tree.Equality

/-!
# Expansion comes to an end

The tree of a form stands for what the form was expanded to, step by step and to the last, and
remembers every step. Analyzed again, what it stands for gives the same tree: the levels that were
spent on expanding are not missed, because more levels never change a result.
-/

namespace LispFront

open AnalyzerM Correspondence

/-- Expanding `f` in `e` leads to `g`, through the forms `steps`, each of which is changed. -/
inductive Analyzer.ExpandsThrough (a : Analyzer) (e : Env) : Form → List Form → Form → Prop
  | done (f : Form) : ExpandsThrough a e f [] f
  | step {f f' g : Form} {steps : List Form} : a.expand f e = .ok f' → (f' == f) = false →
      ExpandsThrough a e f' steps g → ExpandsThrough a e f (f :: steps) g

abbrev Correspondence.onSuccess : Correspondence := exact fun _ => True

theorem onSuccess_lawful : onSuccess.Lawful := exact_lawful fun _ _ h => h

variable {a : Analyzer} {levels : Nat} {form : Form} {env : Env} {s t : Analysis} {n : Node}

theorem analyzeUpTo_of_le {levels' : Nat} (hle : levels ≤ levels')
    (h : (a.analyzeUpTo levels form env).run.run s = (.ok n, t)) :
    (a.analyzeUpTo levels' form env).run.run s = (.ok n, t) := by
  have hrecurses : onSuccess.Recurses (a.analyzeUpTo levels) (a.analyzeUpTo levels') :=
    recurses_of_le (fun _ _ h => h) (fun _ => trivial) rfl rfl hle
  have hmore := hrecurses form form env env rfl (envLike_refl env) s s rfl
  rw [h] at hmore
  generalize (a.analyzeUpTo levels' form env).run.run s = r at hmore ⊢
  cases hmore with
  | ok hn ht =>
    cases hn
    cases ht
    rfl

theorem unexpanded_of_built {x : AnalyzerM Node}
    (hx : onSuccess.Relates x x (onSuccess.Built form form))
    (h : x.run.run s = (.ok n, t)) : n.form = form ∧ n.expandedFrom = [] := by
  have hbuilt := hx s s rfl
  rw [h] at hbuilt
  cases hbuilt with
  | ok hn _ =>
    cases hn
    exact ⟨rfl, rfl⟩

structure Expanded (a : Analyzer) (levels : Nat) (form : Form) (env : Env) (s t : Analysis)
    (n : Node) : Prop where
  steps : a.ExpandsThrough env form n.expandedFrom n.form
  fixed : n.form.isExpandable → ∃ g, a.expand n.form env = .ok g ∧ g == n.form
  again : (a.analyzeUpTo levels n.form env).run.run s = (.ok { n with expandedFrom := [] }, t)

theorem expanded_of_unexpanded (h : (a.analyzeUpTo levels form env).run.run s = (.ok n, t))
    (hn : n.form = form ∧ n.expandedFrom = [])
    (hfixed : form.isExpandable → ∃ g, a.expand form env = .ok g ∧ g == form) :
    Expanded a levels form env s t n := by
  obtain ⟨op, f, e, raw⟩ := n
  obtain ⟨rfl, rfl⟩ := hn
  exact ⟨.done f, hfixed, h⟩

theorem expanded_of_expansion {g : Form} (hg : a.expand form env = .ok g)
    (hne : (g == form) = false)
    (h : (Analyzer.analyzeExpansion (a.analyzeUpTo levels) form g env).run.run s = (.ok n, t))
    (ih : ∀ m u, (a.analyzeUpTo levels g env).run.run s = (.ok m, u) →
      Expanded a levels g env s u m) : Expanded a (levels + 1) form env s t n := by
  unfold Analyzer.analyzeExpansion at h
  rw [run_bind] at h
  rcases hm : (a.analyzeUpTo levels g env).run.run s with ⟨e | m, u⟩
  · rw [hm] at h
    cases h
  · rw [hm] at h
    cases h
    have hexpanded := ih m _ hm
    exact ⟨.step hg hne hexpanded.steps, hexpanded.fixed,
      analyzeUpTo_of_le (Nat.le_succ levels) hexpanded.again⟩

theorem expand_of_bind {f : Form → AnalyzerM Node}
    (h : (a.expansion form env >>= f).run.run s = (.ok n, t)) :
    ∃ g, a.expand form env = .ok g ∧ (f g).run.run s = (.ok n, t) := by
  unfold Analyzer.expansion at h
  rcases hg : a.expand form env with e | g
  · rw [hg] at h
    cases h
  · rw [hg] at h
    exact ⟨g, rfl, h⟩

theorem expanded_of_choice {x : AnalyzerM Node} {g : Form}
    (h : (a.analyzeUpTo (levels + 1) form env).run.run s = (.ok n, t))
    (hg : a.expand form env = .ok g)
    (hx : onSuccess.Relates x x (onSuccess.Built form form))
    (hrest : (if g == form then x
      else Analyzer.analyzeExpansion (a.analyzeUpTo levels) form g env).run.run s = (.ok n, t))
    (ih : ∀ m u, (a.analyzeUpTo levels g env).run.run s = (.ok m, u) →
      Expanded a levels g env s u m) : Expanded a (levels + 1) form env s t n := by
  split at hrest
  · rename_i heq
    exact expanded_of_unexpanded h (unexpanded_of_built hx hrest) fun _ => ⟨g, hg, heq⟩
  · rename_i hne
    exact expanded_of_expansion hg (eq_false_of_ne_true hne) hrest ih

theorem expanded_of_analyzeUpTo (h : (a.analyzeUpTo levels form env).run.run s = (.ok n, t)) :
    Expanded a levels form env s t n := by
  have hC := onSuccess_lawful
  have he : env.Like onSuccess env := envLike_refl env
  have hf (f : Form) : onSuccess.form f f := rfl
  induction levels generalizing form s t n with
  | zero => cases h
  | succ levels ih =>
    have hr : onSuccess.Recurses (a.analyzeUpTo levels) (a.analyzeUpTo levels) := recurses_refl _
    cases hatom : form.isExpandable with
    | false =>
      have hbuilt : onSuccess.Relates (a.analyzeLevel (a.analyzeUpTo levels) form env)
          (a.analyzeLevel (a.analyzeUpTo levels) form env) (onSuccess.Built form form) :=
        relates_unexpandable hC hr (hf form) he hatom
      exact expanded_of_unexpanded h (unexpanded_of_built hbuilt h) (by simp [hatom])
    | true =>
      cases form with
      | symbol x m =>
        obtain ⟨g, hg, hrest⟩ := expand_of_bind h
        have hbuilt : onSuccess.Relates (a.analyzeName (.symbol x m) x env)
            (a.analyzeName (.symbol x m) x env) (onSuccess.Built (.symbol x m) (.symbol x m)) :=
          relates_analyzeName hC exact_agrees rfl x (hf _) he
        exact expanded_of_choice h hg hbuilt hrest fun _ _ => ih
      | list es m =>
        cases es with
        | nil => cases hatom
        | cons head args =>
          have hlist : (a.analyzeList (a.analyzeUpTo levels) (.list (head :: args) m) head args
            env).run.run s = (.ok n, t) := h
          unfold Analyzer.analyzeList at hlist
          split at hlist
          · cases hlist
          · obtain ⟨g, hg, hrest⟩ := expand_of_bind hlist
            have hargs : List.Forall₂ Eq args args := List.forall₂_refl args
            have hbuilt := relates_analyzeCall hC hr (hf (.list (head :: args) m)) he (hf head) hargs
            exact expanded_of_choice h hg hbuilt (run_within_eq_ok.mp hrest) fun _ _ => ih
      | _ => cases hatom

theorem expansion_of_analyzeIn {s t : Store} (h : (a.analyzeIn form env).run.run s = (.ok n, t)) :
    a.ExpandsThrough env form n.expandedFrom n.form ∧
      (n.form.isExpandable → ∃ g, a.expand n.form env = .ok g ∧ g == n.form) ∧
      ∃ n', (a.analyzeIn n.form env).run.run s = (.ok n', t) ∧ n' = { n with expandedFrom := [] } ∧
        n' == n := by
  have hn := expanded_of_analyzeUpTo (Analyzer.run_analyzeIn_iff.mp h)
  exact ⟨hn.steps, hn.fixed, _, Analyzer.run_analyzeIn_iff.mpr hn.again, rfl,
    n.beq_expandedFrom []⟩

def Analyzer.twoSteps : Analyzer where
  home := .plain "user"
  expand f _ := .ok <|
    if f == .sym "x" then .sym "y" else if f == .sym "y" then .call "quote" [.sym "x"] else f

theorem expansion_in_two_steps :
    ∃ n t,
      (Analyzer.twoSteps.analyzeIn (.sym "x") (.empty (.plain "user"))).run.run ⟨.empty, .start⟩ =
        (.ok n, t) ∧
      n.expandedFrom = [.sym "x", .sym "y"] ∧ n.form = .call "quote" [.sym "x"] ∧
      Analyzer.twoSteps.ExpandsThrough (.empty (.plain "user")) (.sym "x") n.expandedFrom n.form ∧
      (∃ g, Analyzer.twoSteps.expand n.form (.empty (.plain "user")) = .ok g ∧ g == n.form) ∧
      ∃ n', (Analyzer.twoSteps.analyzeIn n.form (.empty (.plain "user"))).run.run ⟨.empty, .start⟩ =
          (.ok n', t) ∧
        n' = { n with expandedFrom := [] } ∧ n' == n := by
  obtain ⟨n, t, h, hsteps, hform⟩ : ∃ n t,
      (Analyzer.twoSteps.analyzeIn (.sym "x") (.empty (.plain "user"))).run.run ⟨.empty, .start⟩ =
        (.ok n, t) ∧
      n.expandedFrom = [.sym "x", .sym "y"] ∧ n.form = .call "quote" [.sym "x"] :=
    ⟨_, _, rfl, rfl, rfl⟩
  obtain ⟨hthrough, hfixed, hagain⟩ := expansion_of_analyzeIn h
  have hlist : n.form.isExpandable := by
    rw [hform]
    rfl
  exact ⟨n, t, h, hsteps, hform, hthrough, hfixed hlist, hagain⟩

end LispFront
