import LispFront.Proofs.Analysis.Calls
import LispFront.Proofs.Analysis.Counter
import LispFront.Proofs.Tree.Equality

/-!
# Expressions analyzed in turn

The expressions of a sequence are analyzed as if each were analyzed on its own, one level higher up:
each from the store that the one before it leaves, until one of them fails. On its own, an analysis
starts with a fresh snapshot and a counter at zero, which is where the sequence gets to by itself.
-/

namespace LispFront

open AnalyzerM Correspondence

section InTurn

variable {σ : Type} {analyze : Form → Env → ExceptT AnalysisError (StateM σ) Node}

/-- The analyses of these forms succeed one after the other, each from the state that the one before
it leaves. -/
inductive InTurn (analyze : Form → Env → ExceptT AnalysisError (StateM σ) Node) :
    List (Form × Env) → σ → List Node → σ → Prop
  | nil (s : σ) : InTurn analyze [] s [] s
  | cons {f : Form} {env : Env} {n : Node} {parts : List (Form × Env)} {ns : List Node}
      {s t u : σ} : (analyze f env).run.run s = (.ok n, t) → InTurn analyze parts t ns u →
      InTurn analyze ((f, env) :: parts) s (n :: ns) u

variable {parts : List (Form × Env)} {ns : List Node} {s t u : σ}

theorem inTurn_iff :
    InTurn analyze parts s ns t ↔
      (parts.mapM fun p => analyze p.1 p.2).run.run s = (.ok ns, t) := by
  induction parts generalizing s ns with
  | nil =>
    constructor
    · rintro ⟨⟩
      rfl
    · rintro ⟨⟩
      exact .nil _
  | cons p parts ih =>
    rw [List.mapM_cons, run_bind_eq_ok]
    constructor
    · intro h
      cases h with
      | cons hn hns => exact ⟨_, _, hn, run_bind_eq_ok.mpr ⟨_, _, ih.mp hns, rfl⟩⟩
    · rintro ⟨n, u, hn, hrest⟩
      obtain ⟨ns, v, hns, hpure⟩ := run_bind_eq_ok.mp hrest
      cases hpure
      exact .cons hn (ih.mpr hns)

theorem inTurn_concat_iff {f : Form} {env : Env} :
    InTurn analyze (parts ++ [(f, env)]) s ns t ↔
      ∃ ms u n, InTurn analyze parts s ms u ∧ (analyze f env).run.run u = (.ok n, t) ∧
        ns = ms ++ [n] := by
  have hlast : (do
      let ms ← parts.mapM fun p => analyze p.1 p.2
      let n ← analyze f env
      return ms ++ [n]) = (parts ++ [(f, env)]).mapM fun p => analyze p.1 p.2 := by
    simp [List.mapM_append]
  rw [inTurn_iff, ← hlast, run_bind_eq_ok]
  constructor
  · rintro ⟨ms, u, hms, hrest⟩
    obtain ⟨n, v, hn, hpure⟩ := run_bind_eq_ok.mp hrest
    cases hpure
    exact ⟨ms, u, n, inTurn_iff.mpr hms, hn, rfl⟩
  · rintro ⟨ms, u, n, hms, hn, rfl⟩
    exact ⟨ms, u, inTurn_iff.mp hms, run_bind_eq_ok.mpr ⟨n, t, hn, rfl⟩⟩

theorem InTurn.error_of_next {f : Form} {env : Env} {after : List (Form × Env)} {e : AnalysisError}
    (h : InTurn analyze parts s ns u) (herror : (analyze f env).run.run u = (.error e, t)) :
    ((parts ++ (f, env) :: after).mapM fun p => analyze p.1 p.2).run.run s = (.error e, t) := by
  rw [List.mapM_append, run_bind, inTurn_iff.mp h]
  dsimp only
  rw [List.mapM_cons, run_bind, run_bind, herror]

end InTurn

/-- The expressions of a sequence and the environments that they are in. -/
def sequenceParts (exprs : List Form) (last : Form) (env : Env) : List (Form × Env) :=
  exprs.map (·, env.withContext .statement) ++ [(last, env)]

section Sequence

variable {recurse : Recurse} {form last : Form} {exprs : List Form} {env : Env} {body : Bool}
  {s t : Analysis}

theorem analyzeSequence_concat :
    analyzeSequence recurse form (exprs ++ [last]) env body = (do
      let statements ← (exprs.map (·, env.withContext .statement)).mapM fun p => recurse p.1 p.2
      let ret ← recurse last env
      return .of (.sequence statements ret body) form env) := by
  have hall : analyzeAll recurse exprs (env.withContext .statement) =
      (exprs.map (·, env.withContext .statement)).mapM fun p => recurse p.1 p.2 := by
    rw [List.mapM_map]
    rfl
  unfold analyzeSequence
  rw [List.getLast?_concat, List.dropLast_concat, ← hall]

theorem run_analyzeSequence_eq_ok {n : Node} :
    (analyzeSequence recurse form (exprs ++ [last]) env body).run.run s = (.ok n, t) ↔
      ∃ statements ret, InTurn recurse (sequenceParts exprs last env) s (statements ++ [ret]) t ∧
        n = .of (.sequence statements ret body) form env := by
  rw [analyzeSequence_concat, run_bind_eq_ok]
  constructor
  · rintro ⟨statements, u, hstatements, hrest⟩
    obtain ⟨ret, v, hret, hpure⟩ := run_bind_eq_ok.mp hrest
    cases hpure
    refine ⟨statements, ret, inTurn_concat_iff.mpr ?_, rfl⟩
    exact ⟨statements, u, ret, inTurn_iff.mpr hstatements, hret, rfl⟩
  · rintro ⟨statements, ret, hturn, rfl⟩
    obtain ⟨ms, u, n, hms, hn, happend⟩ := inTurn_concat_iff.mp hturn
    obtain ⟨rfl, hsingle⟩ := List.append_inj' happend rfl
    cases hsingle
    exact ⟨_, u, inTurn_iff.mp hms, run_bind_eq_ok.mpr ⟨_, t, hn, rfl⟩⟩

theorem run_analyzeSequence_of_error {before after : List (Form × Env)} {f : Form} {e : Env}
    {ns : List Node} {u : Analysis} {error : AnalysisError}
    (hparts : sequenceParts exprs last env = before ++ (f, e) :: after)
    (hbefore : InTurn recurse before s ns u)
    (herror : (recurse f e).run.run u = (.error error, t)) :
    (analyzeSequence recurse form (exprs ++ [last]) env body).run.run s = (.error error, t) := by
  rw [analyzeSequence_concat, run_bind]
  rcases after.eq_nil_or_concat with rfl | ⟨after, p, rfl⟩
  · obtain ⟨hexprs, hlast⟩ := List.append_inj' hparts rfl
    cases hlast
    rw [hexprs, inTurn_iff.mp hbefore]
    dsimp only
    rw [run_bind, herror]
  · have hsplit : exprs.map (·, env.withContext .statement) ++ [(last, env)] =
        (before ++ (f, e) :: after) ++ [p] := by
      simpa [sequenceParts] using hparts
    obtain ⟨hexprs, -⟩ := List.append_inj' hsplit rfl
    rw [hexprs, hbefore.error_of_next herror]

theorem outcomes_analyzeSequence (a : Analyzer) (limit limit' levels : Nat) (form : Form)
    (exprs : List Form) (env : Env) (body : Bool) (s : Analysis) :
    (acrossLimits limit limit').Outcomes Eq
      ((analyzeSequence ({ a with maxDepth := limit }.analyzeUpTo levels) form exprs env
        body).run.run s)
      ((analyzeSequence ({ a with maxDepth := limit' }.analyzeUpTo levels) form exprs env
        body).run.run s) := by
  have hC : (acrossLimits limit limit').Lawful := acrossLimits_lawful
  have hform : (acrossLimits limit limit').form form form := rfl
  have hexprs : List.Forall₂ Eq exprs exprs := List.forall₂_refl exprs
  have he : env.Like (acrossLimits limit limit') env := .refl (fun _ => rfl) (fun _ => rfl) env
  have hbuilt : (acrossLimits limit limit').Relates _ _
      ((acrossLimits limit limit').Built form form) :=
    relates_analyzeSequence hC hexprs he (recurses_acrossLimits a limit limit' levels) body
  exact relates_mono hbuilt (fun _ _ hn => hn.node hC hform) s s rfl

theorem run_analyzeUpTo_do {a : Analyzer} {levels : Nat} {g : Form} {args : List Form}
    (hform : form.Calls "do" args) (hg : a.expand form env = .ok g) (heq : g == form)
    (s : Analysis) :
    (a.analyzeUpTo (levels + 1) form env).run.run s =
      (within form (analyzeSequence (a.analyzeUpTo levels) form args env false)).run.run s := by
  obtain ⟨m, hrun⟩ := run_analyzeUpTo_of_calls (k := .sequence) hform hg heq s
  exact hrun

end Sequence

/-- Where one analysis has got to, the next one starts: its snapshot is current and every level has
been left. -/
theorem inTurn_analyzeIn_iff {a : Analyzer} {parts : List (Form × Env)} {ns : List Node}
    {s t : Store} :
    InTurn a.analyzeIn parts s ns t ↔
      InTurn (a.analyzeUpTo a.maxDepth) parts (.start s) ns (.start t) := by
  induction parts generalizing s ns with
  | nil =>
    constructor
    · rintro ⟨⟩
      exact .nil _
    · intro h
      obtain ⟨rfl, hst⟩ : ns = [] ∧ Analysis.start s = .start t := by
        cases h
        exact ⟨rfl, rfl⟩
      obtain rfl : s = t := congrArg Analysis.toStore hst
      exact .nil s
  | cons p parts ih =>
    constructor
    · rintro (_ | ⟨hn, hns⟩)
      exact .cons (Analyzer.run_analyzeIn_iff.mp hn) (ih.mp hns)
    · rintro (_ | ⟨hn, hns⟩)
      -- where the first analysis ended is where a call on its store starts
      have hfirst := Analyzer.run_analyzeIn_of_levels hn
      have hstart := hn.symm.trans (Analyzer.run_analyzeIn_iff.mp hfirst)
      rw [(Prod.mk.inj hstart).2] at hns
      exact .cons hfirst (ih.mpr hns)

/-- A sequence that is left alone is analyzed as its expressions are one after the other, a level
higher up. It succeeds if and only if they all do, with their trees and with the store they leave
behind. It fails if one of them is the first to fail, with the same error up to the limit it names
and up to its location, and with the store that the failed analysis leaves behind. -/
theorem sequence_in_turn (a : Analyzer) (limit : Nat) {form last g : Form} {exprs : List Form}
    {env : Env} (hform : form.Calls "do" (exprs ++ [last])) (hg : a.expand form env = .ok g)
    (heq : g == form) (s : Store) :
    (∀ n t, ({ a with maxDepth := limit + 1 }.analyzeIn form env).run.run s = (.ok n, t) ↔
      ∃ statements ret,
        InTurn { a with maxDepth := limit }.analyzeIn (sequenceParts exprs last env) s
          (statements ++ [ret]) t ∧
        n = .of (.sequence statements ret false) form env) ∧
    ∀ before f inner after ns e t u, sequenceParts exprs last env = before ++ (f, inner) :: after →
      InTurn { a with maxDepth := limit }.analyzeIn before s ns u →
      ({ a with maxDepth := limit }.analyzeIn f inner).run.run u = (.error e, t) →
      ∃ e', ({ a with maxDepth := limit + 1 }.analyzeIn form env).run.run s = (.error e', t) ∧
        e'.form = e.form ∧ e'.location = e.location.or (SourceLocation.of? form) ∧
        (e'.fault = e.fault ∨ e.fault = .tooDeep limit ∧ e'.fault = .tooDeep (limit + 1)) := by
  have hrun :
      ({ a with maxDepth := limit + 1 }.analyzeUpTo (limit + 1) form env).run.run (.start s) =
        (within form (analyzeSequence ({ a with maxDepth := limit + 1 }.analyzeUpTo limit) form
          (exprs ++ [last]) env false)).run.run (.start s) :=
    run_analyzeUpTo_do (a := { a with maxDepth := limit + 1 }) hform hg heq _
  have houtcomes := outcomes_analyzeSequence a limit (limit + 1) limit form (exprs ++ [last]) env
    false (.start s)
  refine ⟨fun n t => ?_, fun before f inner after ns e t u hparts hbefore herror => ?_⟩
  · rw [Analyzer.run_analyzeIn_iff, hrun, run_within_eq_ok, ok_iff_of_acrossLimits houtcomes,
      run_analyzeSequence_eq_ok]
    simp only [inTurn_analyzeIn_iff]
  · obtain ⟨e', hwhole, hsame⟩ := error_of_acrossLimits houtcomes (run_analyzeSequence_of_error
      hparts (inTurn_analyzeIn_iff.mp hbefore) (Analyzer.run_analyzeIn_iff.mp herror))
    refine ⟨e'.within form, ?_, ?_⟩
    · rw [Analyzer.run_analyzeIn_iff, hrun, run_within, hwhole]
    · rcases hsame with rfl | ⟨hfault, rfl⟩
      · exact ⟨rfl, rfl, .inl rfl⟩
      · exact ⟨rfl, rfl, .inr ⟨hfault, rfl⟩⟩

def nestedName : Form := .vector [.vector [.sym "x"] []] []

/-- A definition is there for the expressions behind it, and stays if one of them fails. -/
theorem sequence_in_turn_of_def :
    (∃ n t, ({ Analyzer.plain with maxDepth := 3 }.analyzeIn
        (.call "do" [.call "def" [.sym "x"], .sym "x"]) (.empty (.plain "user"))).run.run
          ⟨Directory.empty.create (.plain "user"), .start⟩ = (.ok n, t) ∧
      ∃ statements ret,
        InTurn { Analyzer.plain with maxDepth := 2 }.analyzeIn
          (sequenceParts [.call "def" [.sym "x"]] (.sym "x") (.empty (.plain "user")))
          ⟨Directory.empty.create (.plain "user"), .start⟩ (statements ++ [ret]) t ∧
        n = .of (.sequence statements ret false) (.call "do" [.call "def" [.sym "x"], .sym "x"])
          (.empty (.plain "user"))) ∧
    ∃ ns u e t,
      InTurn { Analyzer.plain with maxDepth := 2 }.analyzeIn
        [(.call "def" [.sym "x"], (Env.empty (.plain "user")).withContext .statement)]
        ⟨Directory.empty.create (.plain "user"), .start⟩ ns u ∧
      ({ Analyzer.plain with maxDepth := 2 }.analyzeIn nestedName
        (.empty (.plain "user"))).run.run u = (.error e, t) ∧ e.fault = .tooDeep 2 ∧
      ∃ e', ({ Analyzer.plain with maxDepth := 3 }.analyzeIn
          (.call "do" [.call "def" [.sym "x"], nestedName]) (.empty (.plain "user"))).run.run
            ⟨Directory.empty.create (.plain "user"), .start⟩ = (.error e', t) ∧
        e'.form = e.form ∧ e'.location = e.location.or none ∧
        (e'.fault = e.fault ∨ e.fault = .tooDeep 2 ∧ e'.fault = .tooDeep 3) := by
  have hform (last : Form) : (Form.call "do" [.call "def" [.sym "x"], last]).Calls "do"
      ([.call "def" [.sym "x"]] ++ [last]) := ⟨[], [], rfl⟩
  obtain ⟨hok, -⟩ := sequence_in_turn Analyzer.plain 2 (hform (.sym "x")) rfl (Form.beq_refl _)
    ⟨Directory.empty.create (.plain "user"), .start⟩
  obtain ⟨-, herror⟩ := sequence_in_turn Analyzer.plain 2 (hform nestedName) rfl (Form.beq_refl _)
    ⟨Directory.empty.create (.plain "user"), .start⟩
  obtain ⟨n, t, hrun⟩ : ∃ n t, ({ Analyzer.plain with maxDepth := 3 }.analyzeIn
      (.call "do" [.call "def" [.sym "x"], .sym "x"]) (.empty (.plain "user"))).run.run
        ⟨Directory.empty.create (.plain "user"), .start⟩ = (.ok n, t) := ⟨_, _, rfl⟩
  obtain ⟨ns, u, e, t', hdefined, hdeep, hfault⟩ : ∃ ns u e t,
      InTurn { Analyzer.plain with maxDepth := 2 }.analyzeIn
        [(.call "def" [.sym "x"], (Env.empty (.plain "user")).withContext .statement)]
        ⟨Directory.empty.create (.plain "user"), .start⟩ ns u ∧
      ({ Analyzer.plain with maxDepth := 2 }.analyzeIn nestedName
        (.empty (.plain "user"))).run.run u = (.error e, t) ∧ e.fault = .tooDeep 2 :=
    ⟨_, _, _, _, .cons rfl (.nil _), rfl, rfl⟩
  refine ⟨⟨n, t, hrun, (hok n t).mp hrun⟩, ns, u, e, t', hdefined, hdeep, hfault, ?_⟩
  exact herror _ _ _ _ _ _ _ _ rfl hdefined hdeep

end LispFront
