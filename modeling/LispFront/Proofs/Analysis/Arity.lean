import LispFront.Proofs.Analysis.Counter
import LispFront.Proofs.Tree.Equality

/-!
# Numbers of arguments

What an error says about a number of arguments holds of the form that it blames, from wherever in a
tree it has come. And no construct whose number of arguments is limited gets by with another one.
-/

namespace LispFront

open AnalyzerM

section Truth

variable {a : Analyzer} {levels : Nat} {e : AnalysisError}

theorem trueOf_of_leaving {form : Form} (h : e.fault.TrueOf e.form) :
    (e.leaving form).fault.TrueOf (e.leaving form).form := by
  unfold AnalysisError.leaving
  split <;> exact h

variable (hexpand : ∀ form env e, a.expand form env = .error e → e.fault.comparesArity = false)
include hexpand

theorem Analyzer.Level.fails_trueOf {form : Form} {env : Env} {x : AnalyzerM Node}
    (hx : a.Level (a.analyzeUpTo levels) form env x)
    (ih : ∀ form env, Fails (a.analyzeUpTo levels form env) fun e _ => e.fault.TrueOf e.form) :
    Fails x fun e _ => e.fault.TrueOf e.form := by
  intro s e t h
  cases hx with
  | expander hform hg =>
    cases h
    exact AnalysisFault.trueOf_of_comparesArity (hexpand _ _ _ hg) _
  | @expansion g hform hg hne =>
    obtain ⟨e', hrun, rfl⟩ := error_of_leaving h
    rcases error_of_bind hrun with hrun | ⟨n, u, -, hpure⟩
    · exact trueOf_of_leaving (ih g env s e' t hrun)
    · cases hpure
  | construct hkeeps hx =>
    obtain ⟨e', hrun, rfl⟩ := error_of_leaving h
    have hfails := hx.fails_of (p := fun e _ => e.fault.TrueOf e.form)
      (fun _ _ _ _ _ htrue => htrue) fun _ part env _ => ih part env
    exact trueOf_of_leaving (hfails s e' t hrun)

theorem fails_trueOf (levels : Nat) (form : Form) (env : Env) :
    Fails (a.analyzeUpTo levels form env) fun e _ => e.fault.TrueOf e.form := by
  induction levels generalizing form env with
  | zero =>
    intro s e t h
    cases h
    trivial
  | succ levels ih => exact (a.level_analyzeLevel _ form env).fails_trueOf hexpand ih

end Truth

/-- How many arguments a special form takes, if that is limited. What `recur` takes is what it goes
back to takes. -/
def SpecialForm.arity? (env : Env) : SpecialForm → Option Arity
  | .branch => some (.between 2 3)
  | .new => some (.atLeast 1)
  | .quote | .throw | .var => some (.exactly 1)
  | .assign => some (.exactly 2)
  | .define => some (.between 1 3)
  | .dot => some (.atLeast 2)
  | .case => some (.between 7 8)
  | .recur => env.loopArity.map .exactly
  | .sequence | .tryBlock | .letBlock | .letfn | .loop | .fn => none

section Admitted

variable {recurse : Recurse} {form : Form} {args : List Form} {e : Env}

theorem admitted_of_analyzeIf :
    Yields (analyzeIf recurse form args e) fun _ => (Arity.between 2 3).admits args.length := by
  unfold analyzeIf
  split
  · exact yields_mono yields_true fun _ _ => rfl
  · exact yields_mono yields_true fun _ _ => rfl
  · exact yields_fail _ _

theorem admitted_of_analyzeNew :
    Yields (analyzeNew recurse form args e) fun _ => (Arity.atLeast 1).admits args.length := by
  unfold analyzeNew
  split
  · exact yields_mono yields_true fun _ _ => Arity.admits_atLeast_iff.mpr (Nat.le_add_left _ _)
  · exact yields_fail _ _

theorem admitted_of_analyzeQuote :
    Yields (analyzeQuote form args e) fun _ => (Arity.exactly 1).admits args.length := by
  unfold analyzeQuote
  split
  · exact yields_pure rfl
  · exact yields_fail _ _

theorem admitted_of_analyzeThrow :
    Yields (analyzeThrow recurse form args e) fun _ => (Arity.exactly 1).admits args.length := by
  unfold analyzeThrow
  split
  · exact yields_mono yields_true fun _ _ => rfl
  · exact yields_fail _ _

theorem admitted_of_analyzeVar :
    Yields (analyzeVar form args e) fun _ => (Arity.exactly 1).admits args.length := by
  unfold analyzeVar
  split
  · exact yields_mono yields_true fun _ _ => rfl
  · exact yields_fail _ _

theorem admitted_of_analyzeAssign :
    Yields (analyzeAssign recurse form args e) fun _ => (Arity.exactly 2).admits args.length := by
  unfold analyzeAssign
  split
  · exact yields_mono yields_true fun _ _ => rfl
  · exact yields_fail _ _

theorem admitted_of_docAndInit {rest : List Form} :
    Yields (Definition.docAndInit form args rest) fun _ => rest.length ≤ 2 := by
  unfold Definition.docAndInit
  split
  · exact yields_pure (by decide)
  · exact yields_pure (Nat.le_succ 1)
  · exact yields_pure (Nat.le_refl 2)
  · exact yields_fail _ _
  · exact yields_fail _ _

theorem admitted_of_analyzeDef :
    Yields (analyzeDef recurse form args e) fun _ => (Arity.between 1 3).admits args.length := by
  have hargs : Yields (Definition.ofArgs form args e) fun _ =>
      (Arity.between 1 3).admits args.length := by
    unfold Definition.ofArgs
    split
    · exact yields_fail _ _
    · split
      · refine yields_bind admitted_of_docAndInit fun _ hrest => yields_pure ?_
        exact Arity.admits_between_iff.mpr ⟨Nat.le_add_left _ _, Nat.succ_le_succ hrest⟩
      · exact yields_fail _ _
    · exact yields_fail _ _
  unfold analyzeDef
  exact yields_bind hargs fun _ h => yields_mono yields_true fun _ _ => h

theorem admitted_of_analyzeDot :
    Yields (analyzeDot recurse form args e) fun _ => (Arity.atLeast 2).admits args.length := by
  unfold analyzeDot
  split
  · exact yields_mono yields_true fun _ _ => Arity.admits_atLeast_iff.mpr (Nat.le_add_left _ _)
  · exact yields_fail _ _

theorem admitted_of_analyzeCase :
    Yields (analyzeCase recurse form args e) fun _ => (Arity.between 7 8).admits args.length := by
  unfold analyzeCase
  split
  · split
    · rename_i hrest
      refine yields_mono yields_true fun _ _ => Arity.admits_between_iff.mpr ?_
      simp only [List.length_cons]
      omega
    · exact yields_fail _ _
  · exact yields_fail _ _

theorem admitted_of_analyzeRecur :
    Yields (analyzeRecur recurse form args e) fun _ =>
      ∀ n ∈ e.loopArity, (Arity.exactly n).admits args.length := by
  unfold analyzeRecur
  split
  · rename_i id arity hcontext hid harity
    split
    · exact yields_fail _ _
    · split
      · rename_i hlength
        refine yields_mono yields_true fun _ _ n hn => beq_iff_eq.mpr ?_
        rw [harity] at hn
        exact hlength.trans (Option.mem_some.mp hn)
      · exact yields_fail _ _
  · exact yields_fail _ _

theorem admitted_of_analyzeCall {head : Form} {k : SpecialForm} {arity : Arity}
    (hhead : SpecialForm.ofHead? head = some k) (harity : k.arity? e = some arity) :
    Yields (Analyzer.analyzeCall recurse form head args e) fun _ => arity.admits args.length := by
  unfold Analyzer.analyzeCall
  rw [hhead]
  cases k with
  | branch =>
    cases harity
    exact admitted_of_analyzeIf
  | new =>
    cases harity
    exact admitted_of_analyzeNew
  | quote =>
    cases harity
    exact admitted_of_analyzeQuote
  | assign =>
    cases harity
    exact admitted_of_analyzeAssign
  | throw =>
    cases harity
    exact admitted_of_analyzeThrow
  | define =>
    cases harity
    exact admitted_of_analyzeDef
  | dot =>
    cases harity
    exact admitted_of_analyzeDot
  | recur =>
    obtain ⟨n, hn, rfl⟩ := Option.map_eq_some_iff.mp harity
    exact yields_mono admitted_of_analyzeRecur fun _ h => h n hn
  | var =>
    cases harity
    exact admitted_of_analyzeVar
  | case =>
    cases harity
    exact admitted_of_analyzeCase
  | sequence | tryBlock | letBlock | letfn | loop | fn => cases harity

theorem admitted_of_analyzeCatch (clause : Form) :
    Yields (analyzeCatch recurse e clause) fun _ =>
      (Arity.atLeast 2).admits (clauseArgs clause).length := by
  unfold analyzeCatch
  split
  · rename_i hargs
    rw [hargs]
    exact yields_mono yields_true fun _ _ => Arity.admits_atLeast_iff.mpr (Nat.le_add_left _ _)
  · exact yields_fail _ _

theorem admitted_of_analyzeTry :
    Yields (analyzeTry recurse form args e) fun _ => ∀ clause ∈ (TryClauses.split args).catches,
      (Arity.atLeast 2).admits (clauseArgs clause).length := by
  unfold analyzeTry
  dsimp only
  split
  · exact yields_fail _ _
  · exact yields_fail _ _
  · refine yields_bind yields_true fun _ _ => ?_
    have hcatch (e : Env) (clause : Form) : Yields (analyzeCatch recurse e clause) fun _ =>
        (Arity.atLeast 2).admits (clauseArgs clause).length ∧ True :=
      yields_mono (admitted_of_analyzeCatch clause) fun _ h => ⟨h, trivial⟩
    refine yields_bind (yields_mapM_forall₂ _ (hcatch _)) fun _ hcatches => ?_
    exact yields_mono yields_true fun _ _ => ((List.forall₂_and_left _ _).mp hcatches).1

end Admitted

variable {a : Analyzer}

theorem of_analyzeIn_call {k : SpecialForm} {form g : Form} {env : Env} {args : List Form}
    {s t : Store} {n : Node} {p : Prop} (hform : form.Calls k.name args)
    (hg : a.expand form env = .ok g) (heq : g == form)
    (h : (a.analyzeIn form env).run.run s = (.ok n, t))
    (hp : ∀ levels m, Yields (Analyzer.analyzeCall (a.analyzeUpTo levels) form
      (.symbol (.plain k.name) m) args env) fun _ => p) : p := by
  rw [Analyzer.run_analyzeIn_iff] at h
  cases hlevels : a.maxDepth with
  | zero =>
    rw [hlevels] at h
    cases h
  | succ levels =>
    obtain ⟨m, hrun⟩ := run_analyzeUpTo_of_calls hform hg heq (.start s)
    rw [hlevels, hrun] at h
    exact hp levels m _ n _ (run_within_eq_ok.mp h)

/-- An error about a number of arguments blames a form that has this number of arguments, and it is
one that the form does not take. And nothing that the expander leaves alone is analyzed if it has a
number of arguments that it does not take, be it a special form or a handler in one. -/
theorem arity_faults_exact (a : Analyzer)
    (hexpand : ∀ form env e, a.expand form env = .error e → e.fault.comparesArity = false) :
    (∀ form env s e t, (a.analyzeIn form env).run.run s = (.error e, t) →
      e.fault.TrueOf e.form) ∧
    ∀ form env g, a.expand form env = .ok g → g == form →
      (∀ (k : SpecialForm) args arity, form.Calls k.name args → k.arity? env = some arity →
        arity.admits args.length = false →
        ∀ s n t, (a.analyzeIn form env).run.run s ≠ (.ok n, t)) ∧
      ∀ args, form.Calls "try" args → ∀ clause ∈ (TryClauses.split args).catches,
        (Arity.atLeast 2).admits (clauseArgs clause).length = false →
        ∀ s n t, (a.analyzeIn form env).run.run s ≠ (.ok n, t) := by
  refine ⟨fun form env s e t h => fails_trueOf hexpand _ form env _ e _
    (Analyzer.run_analyzeIn_iff.mp h), fun form env g hg heq => ⟨?_, ?_⟩⟩
  · intro k args arity hform harity hadmits s n t h
    have hadmitted : arity.admits args.length := of_analyzeIn_call hform hg heq h fun levels m =>
      admitted_of_analyzeCall (k.ofHead?_name m) harity
    simp [hadmits] at hadmitted
  · intro args hform clause hclause hadmits s n t h
    have hadmitted : ∀ clause ∈ (TryClauses.split args).catches,
        (Arity.atLeast 2).admits (clauseArgs clause).length :=
      of_analyzeIn_call (k := .tryBlock) hform hg heq h fun levels m => admitted_of_analyzeTry
    have hargs := hadmitted clause hclause
    simp [hadmits] at hargs

theorem arity_faults_exact_nested :
    (∀ form env e, Analyzer.plain.expand form env = .error e → e.fault.comparesArity = false) ∧
    (∃ e t,
      (Analyzer.plain.analyzeIn (.call "do" [.call "if" [.nil]])
        (.empty (.plain "user"))).run.run ⟨.empty, .start⟩ = (.error e, t) ∧
      e.fault = .wrongArity "if" (.between 2 3) 1 ∧ e.form = .call "if" [.nil] ∧
      e.fault.TrueOf e.form) ∧
    (∀ s n t, (Analyzer.plain.analyzeIn (.call "throw" [])
      (.empty (.plain "user"))).run.run s ≠ (.ok n, t)) ∧
    ∀ s n t, (Analyzer.plain.analyzeIn (.call "try" [.call "catch" [.sym "Exception"]])
      (.empty (.plain "user"))).run.run s ≠ (.ok n, t) := by
  have hexpand : ∀ form env e, Analyzer.plain.expand form env = .error e →
      e.fault.comparesArity = false := by
    intro form env e h
    cases h
  obtain ⟨htrue, hnever⟩ := arity_faults_exact Analyzer.plain hexpand
  obtain ⟨e, t, h, hfault, hform⟩ : ∃ e t,
      (Analyzer.plain.analyzeIn (.call "do" [.call "if" [.nil]])
        (.empty (.plain "user"))).run.run ⟨.empty, .start⟩ = (.error e, t) ∧
      e.fault = .wrongArity "if" (.between 2 3) 1 ∧ e.form = .call "if" [.nil] :=
    ⟨_, _, rfl, rfl, rfl⟩
  refine ⟨hexpand, ⟨e, t, h, hfault, hform, htrue _ _ _ e t h⟩, ?_, ?_⟩
  · exact (hnever _ _ _ rfl (Form.beq_refl _)).1 .throw [] _ ⟨[], [], rfl⟩ rfl rfl
  · exact (hnever _ _ _ rfl (Form.beq_refl _)).2 _ ⟨[], [], rfl⟩ _ (.head _) rfl

end LispFront
