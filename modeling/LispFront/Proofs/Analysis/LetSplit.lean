import LispFront.Proofs.Analysis.BindingPairs
import LispFront.Proofs.Analysis.Counter
import LispFront.Proofs.Analysis.Depth
import LispFront.Proofs.Tree.Equality

/-!
# Binding names one after the other

A `let*` binds its names in turn, so it can be split after any of them: the bindings of the rest are
those of another `let*` that is all there is in the body of the first.
-/

namespace LispFront

open AnalyzerM BindingPair
open List (Forall₂)

variable {recurse : Recurse} {env inner : Env} {s t : Analysis}

theorem bindInTurn_append (kind : LocalKind) (ps qs : List BindingPair) :
    bindInTurn recurse kind (ps ++ qs) env = (do
      let (bs, mid) ← bindInTurn recurse kind ps env
      let (cs, inner) ← bindInTurn recurse kind qs mid
      return (bs ++ cs, inner)) := by
  induction ps generalizing env with
  | nil => simp [bindInTurn]
  | cons p ps ih => simp [bindInTurn, ih]

theorem run_bindInTurn_append {kind : LocalKind} {ps qs : List BindingPair} {ns : List Node} :
    (bindInTurn recurse kind (ps ++ qs) env).run.run s = (.ok (ns, inner), t) ↔
      ∃ bs cs mid u, (bindInTurn recurse kind ps env).run.run s = (.ok (bs, mid), u) ∧
        (bindInTurn recurse kind qs mid).run.run u = (.ok (cs, inner), t) ∧ ns = bs ++ cs := by
  rw [bindInTurn_append, run_bind_eq_ok]
  constructor
  · rintro ⟨⟨bs, mid⟩, u, hps, hrest⟩
    obtain ⟨⟨cs, inner⟩, v, hqs, ⟨⟩⟩ := run_bind_eq_ok.mp hrest
    exact ⟨bs, cs, mid, u, hps, hqs, rfl⟩
  · rintro ⟨bs, cs, mid, u, hps, hqs, rfl⟩
    exact ⟨_, u, hps, run_bind_eq_ok.mpr ⟨_, t, hqs, rfl⟩⟩

theorem run_analyzeLet_eq_ok {form : Form} {ps : List (Form × Form)} {m : FormMap}
    {exprs : List Form} {n : Node} :
    (analyzeLet recurse form (.vector (flatten ps) m :: exprs) env).run.run s = (.ok n, t) ↔
      ∃ pairs bs inner u body, Forall₂ Of ps pairs ∧
        (bindInTurn recurse .let pairs env).run.run s = (.ok (bs, inner), u) ∧
        (analyzeBody recurse exprs inner).run.run u = (.ok body, t) ∧
        n = .of (.letBlock bs body) form env := by
  unfold analyzeLet
  rw [run_bind_eq_ok]
  constructor
  · rintro ⟨⟨pairs, exprs⟩, v, hargs, hrest⟩
    obtain ⟨hpairs, rfl, rfl⟩ := run_ofArgs_eq_ok.mp hargs
    obtain ⟨⟨bs, inner⟩, u, hbs, hrest⟩ := run_bind_eq_ok.mp hrest
    obtain ⟨body, w, hbody, ⟨⟩⟩ := run_bind_eq_ok.mp hrest
    exact ⟨pairs, bs, inner, u, body, hpairs, hbs, hbody, rfl⟩
  · rintro ⟨pairs, bs, inner, u, body, hpairs, hbs, hbody, rfl⟩
    refine ⟨(pairs, exprs), s, run_ofArgs_eq_ok.mpr ⟨hpairs, rfl, rfl⟩, ?_⟩
    exact run_bind_eq_ok.mpr ⟨(bs, inner), u, hbs, run_bind_eq_ok.mpr ⟨body, t, hbody, rfl⟩⟩

theorem analyzeBody_singleton (f : Form) :
    analyzeBody recurse [f] env = (do
      let ret ← recurse f env
      return .of (.sequence [] ret true) (.call "do" [f]) env) := by
  simp [analyzeBody, analyzeSequence, analyzeAll]

theorem run_analyzeUpTo_let {a : Analyzer} {levels : Nat} {form g : Form} {args : List Form}
    (hform : form.Calls "let*" args) (hg : a.expand form env = .ok g) (heq : g == form)
    (s : Analysis) :
    (a.analyzeUpTo (levels + 1) form env).run.run s =
      (within form (analyzeLet (a.analyzeUpTo levels) form args env)).run.run s := by
  obtain ⟨m, hrun⟩ := run_analyzeUpTo_of_calls (k := .letBlock) hform hg heq s
  exact hrun

section Split

variable {a : Analyzer} {levels : Nat} {flat nested inside : Form} {ps qs : List (Form × Form)}
  {m m' m'' : FormMap} {exprs : List Form}

theorem run_inside_of_le {mid : Env} {u : Analysis} {r : Except AnalysisError Node}
    (hdeep : ∀ e t, (a.analyzeUpTo levels inside mid).run.run u = (.error e, t) → ¬e.IsTooDeep) :
    (a.analyzeUpTo levels inside mid).run.run u = (r, t) ↔
      (a.analyzeUpTo (levels + 1) inside mid).run.run u = (r, t) := by
  obtain ⟨⟨r', t'⟩, hrun⟩ : ∃ q, (a.analyzeUpTo levels inside mid).run.run u = q := ⟨_, rfl⟩
  have hmore := Analyzer.run_of_le rfl rfl (Nat.le_succ levels) hrun fun e he =>
    hdeep e t' (he ▸ hrun)
  rw [hrun, hmore]

variable (hexpand : ∀ f e, a.expand f e = .ok f)
include hexpand

theorem run_analyzeUpTo_let_eq_ok {form : Form} {n : Node}
    (hform : form.Calls "let*" (.vector (flatten ps) m :: exprs)) :
    (a.analyzeUpTo (levels + 1) form env).run.run s = (.ok n, t) ↔
      ∃ pairs bs inner u body, Forall₂ Of ps pairs ∧
        (bindInTurn (a.analyzeUpTo levels) .let pairs env).run.run s = (.ok (bs, inner), u) ∧
        (analyzeBody (a.analyzeUpTo levels) exprs inner).run.run u = (.ok body, t) ∧
        n = .of (.letBlock bs body) form env := by
  rw [run_analyzeUpTo_let hform (hexpand form env) form.beq_refl, run_within_eq_ok,
    run_analyzeLet_eq_ok]

theorem run_flat_eq_ok {n : Node}
    (hflat : flat.Calls "let*" (.vector (flatten (ps ++ qs)) m :: exprs))
    (hinside : inside.Calls "let*" (.vector (flatten qs) m' :: exprs)) :
    (a.analyzeUpTo (levels + 1) flat env).run.run s = (.ok n, t) ↔
      ∃ pairs bs mid u cs body, Forall₂ Of ps pairs ∧
        (bindInTurn (a.analyzeUpTo levels) .let pairs env).run.run s = (.ok (bs, mid), u) ∧
        (a.analyzeUpTo (levels + 1) inside mid).run.run u =
          (.ok (.of (.letBlock cs body) inside mid), t) ∧
        n = .of (.letBlock (bs ++ cs) body) flat env := by
  rw [run_analyzeUpTo_let_eq_ok hexpand hflat]
  constructor
  · rintro ⟨pairs, ns, inner, v, body, hpairs, hns, hbody, rfl⟩
    have hps := (List.forall₂_take_append pairs ps qs hpairs.flip).flip
    have hqs := (List.forall₂_drop_append pairs ps qs hpairs.flip).flip
    rw [← List.take_append_drop ps.length pairs] at hns
    obtain ⟨bs, cs, mid, u, hbs, hcs, rfl⟩ := run_bindInTurn_append.mp hns
    refine ⟨_, bs, mid, u, cs, body, hps, hbs, ?_, rfl⟩
    exact (run_analyzeUpTo_let_eq_ok hexpand hinside).mpr
      ⟨_, cs, inner, v, body, hqs, hcs, hbody, rfl⟩
  · rintro ⟨pairs, bs, mid, u, cs, body, hps, hbs, hinner, rfl⟩
    obtain ⟨rest, cs', inner, v, body', hqs, hcs, hbody, hnode⟩ :=
      (run_analyzeUpTo_let_eq_ok hexpand hinside).mp hinner
    cases hnode
    exact ⟨pairs ++ rest, bs ++ cs, inner, v, body, List.rel_append hps hqs,
      run_bindInTurn_append.mpr ⟨bs, cs, mid, u, hbs, hcs, rfl⟩, hbody, rfl⟩

theorem run_nested_eq_ok {n : Node}
    (hnested : nested.Calls "let*" [.vector (flatten ps) m, inside]) :
    (a.analyzeUpTo (levels + 1) nested env).run.run s = (.ok n, t) ↔
      ∃ pairs bs mid u i, Forall₂ Of ps pairs ∧
        (bindInTurn (a.analyzeUpTo levels) .let pairs env).run.run s = (.ok (bs, mid), u) ∧
        (a.analyzeUpTo levels inside mid).run.run u = (.ok i, t) ∧
        n = .of (.letBlock bs (.of (.sequence [] i true) (.call "do" [inside]) mid)) nested env := by
  rw [run_analyzeUpTo_let_eq_ok hexpand hnested]
  constructor
  · rintro ⟨pairs, bs, mid, u, body, hpairs, hbs, hbody, rfl⟩
    rw [analyzeBody_singleton] at hbody
    obtain ⟨i, v, hi, ⟨⟩⟩ := run_bind_eq_ok.mp hbody
    exact ⟨pairs, bs, mid, u, i, hpairs, hbs, hi, rfl⟩
  · rintro ⟨pairs, bs, mid, u, i, hpairs, hbs, hi, rfl⟩
    refine ⟨pairs, bs, mid, u, _, hpairs, hbs, ?_, rfl⟩
    rw [analyzeBody_singleton]
    exact run_bind_eq_ok.mpr ⟨i, t, hi, rfl⟩

theorem run_nested_of_error {pairs : List BindingPair} {bs : List Node} {mid : Env} {u : Analysis}
    {e : AnalysisError} (hnested : nested.Calls "let*" [.vector (flatten ps) m, inside])
    (hpairs : Forall₂ Of ps pairs)
    (hbs : (bindInTurn (a.analyzeUpTo levels) .let pairs env).run.run s = (.ok (bs, mid), u))
    (herror : (a.analyzeUpTo levels inside mid).run.run u = (.error e, t)) :
    (a.analyzeUpTo (levels + 1) nested env).run.run s = (.error (e.within nested), t) := by
  have hargs : (ofArgs "let*" nested [.vector (flatten ps) m, inside]).run.run s =
      (.ok (pairs, [inside]), s) := run_ofArgs_eq_ok.mpr ⟨hpairs, rfl, rfl⟩
  rw [run_analyzeUpTo_let hnested (hexpand nested env) nested.beq_refl, run_within]
  unfold analyzeLet
  rw [run_bind, hargs]
  dsimp only
  rw [run_bind, hbs]
  dsimp only
  rw [run_bind, analyzeBody_singleton, run_bind, herror]

theorem run_analyzeUpTo_split (hflat : flat.Calls "let*" (.vector (flatten (ps ++ qs)) m :: exprs))
    (hnested : nested.Calls "let*" [.vector (flatten ps) m', inside])
    (hinside : inside.Calls "let*" (.vector (flatten qs) m'' :: exprs))
    (hdeep : ∀ e t, (a.analyzeUpTo (levels + 1) nested env).run.run s = (.error e, t) →
      ¬e.IsTooDeep) :
    ((∃ n t, (a.analyzeUpTo (levels + 1) flat env).run.run s = (.ok n, t)) ↔
      ∃ n t, (a.analyzeUpTo (levels + 1) nested env).run.run s = (.ok n, t)) ∧
    ∀ n t, (a.analyzeUpTo (levels + 1) flat env).run.run s = (.ok n, t) → ∃ bs cs body mid,
      n = .of (.letBlock (bs ++ cs) body) flat env ∧
      (a.analyzeUpTo (levels + 1) nested env).run.run s = (.ok (.of (.letBlock bs (.of (.sequence []
        (.of (.letBlock cs body) inside mid) true) (.call "do" [inside]) mid)) nested env), t) := by
  have hinner {pairs bs mid u} (hpairs : Forall₂ Of ps pairs)
      (hbs : (bindInTurn (a.analyzeUpTo levels) .let pairs env).run.run s = (.ok (bs, mid), u))
      (i : Node) (t : Analysis) :
      (a.analyzeUpTo levels inside mid).run.run u = (.ok i, t) ↔
        (a.analyzeUpTo (levels + 1) inside mid).run.run u = (.ok i, t) :=
    run_inside_of_le fun e t he =>
      hdeep (e.within nested) t (run_nested_of_error hexpand hnested hpairs hbs he)
  have hto (n t) (hn : (a.analyzeUpTo (levels + 1) flat env).run.run s = (.ok n, t)) :
      ∃ bs cs body mid, n = .of (.letBlock (bs ++ cs) body) flat env ∧
        (a.analyzeUpTo (levels + 1) nested env).run.run s =
          (.ok (.of (.letBlock bs (.of (.sequence [] (.of (.letBlock cs body) inside mid) true)
            (.call "do" [inside]) mid)) nested env), t) := by
    obtain ⟨pairs, bs, mid, u, cs, body, hpairs, hbs, hi, rfl⟩ :=
      (run_flat_eq_ok hexpand hflat hinside).mp hn
    refine ⟨bs, cs, body, mid, rfl, (run_nested_eq_ok hexpand hnested).mpr ?_⟩
    exact ⟨pairs, bs, mid, u, _, hpairs, hbs, (hinner hpairs hbs _ _).mpr hi, rfl⟩
  refine ⟨⟨fun ⟨n, t, hn⟩ => ?_, fun ⟨n', t, hn'⟩ => ?_⟩, hto⟩
  · obtain ⟨bs, cs, body, mid, -, hnode⟩ := hto n t hn
    exact ⟨_, t, hnode⟩
  · obtain ⟨pairs, bs, mid, u, i, hpairs, hbs, hi, rfl⟩ :=
      (run_nested_eq_ok hexpand hnested).mp hn'
    have hi := (hinner hpairs hbs i t).mp hi
    obtain ⟨rest, cs, inner, v, body, -, -, -, rfl⟩ :=
      (run_analyzeUpTo_let_eq_ok hexpand hinside).mp hi
    exact ⟨_, t, (run_flat_eq_ok hexpand hflat hinside).mpr
      ⟨pairs, bs, mid, u, cs, body, hpairs, hbs, hi, rfl⟩⟩

end Split

/-- A `let*` can be split after any of its bindings, under a depth limit that the nested one does
not run into. -/
theorem let_split {a : Analyzer} (hexpand : ∀ f e, a.expand f e = .ok f)
    {flat nested inside : Form} {ps qs : List (Form × Form)} {m m' m'' : FormMap}
    {exprs : List Form} (hflat : flat.Calls "let*" (.vector (flatten (ps ++ qs)) m :: exprs))
    (hnested : nested.Calls "let*" [.vector (flatten ps) m', inside])
    (hinside : inside.Calls "let*" (.vector (flatten qs) m'' :: exprs)) (env : Env) (s : Store)
    (hdeep : ∀ e t, (a.analyzeIn nested env).run.run s = (.error e, t) → ¬e.IsTooDeep) :
    ((∃ n t, (a.analyzeIn flat env).run.run s = (.ok n, t)) ↔
      ∃ n t, (a.analyzeIn nested env).run.run s = (.ok n, t)) ∧
    ∀ n t, (a.analyzeIn flat env).run.run s = (.ok n, t) → ∃ bs cs body mid,
      n = .of (.letBlock (bs ++ cs) body) flat env ∧
      (a.analyzeIn nested env).run.run s = (.ok (.of (.letBlock bs (.of (.sequence []
        (.of (.letBlock cs body) inside mid) true) (.call "do" [inside]) mid)) nested env), t) := by
  cases hlevels : a.maxDepth with
  | zero =>
    refine absurd ⟨0, rfl⟩ (hdeep (.of (.tooDeep 0) nested) s ?_)
    rw [Analyzer.run_analyzeIn_iff, hlevels, Analyzer.analyzeUpTo, hlevels]
    rfl
  | succ levels =>
    have hsplit := run_analyzeUpTo_split hexpand hflat hnested hinside fun e t
      (he : (a.analyzeUpTo (levels + 1) nested env).run.run (.start s) = (.error e, t)) =>
        hdeep e t.toStore (Analyzer.run_analyzeIn_of_levels (hlevels ▸ he))
    rw [← hlevels] at hsplit
    obtain ⟨hiff, hto⟩ := hsplit
    refine ⟨⟨?_, ?_⟩, ?_⟩
    · rintro ⟨n, t, hn⟩
      obtain ⟨n', t', hn'⟩ := hiff.mp ⟨n, _, Analyzer.run_analyzeIn_iff.mp hn⟩
      exact ⟨n', t'.toStore, Analyzer.run_analyzeIn_of_levels hn'⟩
    · rintro ⟨n, t, hn⟩
      obtain ⟨n', t', hn'⟩ := hiff.mpr ⟨n, _, Analyzer.run_analyzeIn_iff.mp hn⟩
      exact ⟨n', t'.toStore, Analyzer.run_analyzeIn_of_levels hn'⟩
    · intro n t hn
      obtain ⟨bs, cs, body, mid, hnode, hrun⟩ := hto n _ (Analyzer.run_analyzeIn_iff.mp hn)
      exact ⟨bs, cs, body, mid, hnode, Analyzer.run_analyzeIn_iff.mpr hrun⟩

theorem let_split_of_repeated :
    (∀ e t, (Analyzer.plain.analyzeIn
        (callOf "let*" [(.sym "x", .nil)] [callOf "let*" [(.sym "x", .sym "x")] [.sym "x"]])
        (.empty (.plain "user"))).run.run ⟨.empty, .start⟩ = (.error e, t) → ¬e.IsTooDeep) ∧
    ∃ n t bs cs body mid,
      (Analyzer.plain.analyzeIn
          (callOf "let*" ([(.sym "x", .nil)] ++ [(.sym "x", .sym "x")]) [.sym "x"])
          (.empty (.plain "user"))).run.run ⟨.empty, .start⟩ = (.ok n, t) ∧
      n = .of (.letBlock (bs ++ cs) body)
        (callOf "let*" ([(.sym "x", .nil)] ++ [(.sym "x", .sym "x")]) [.sym "x"])
        (.empty (.plain "user")) ∧
      (Analyzer.plain.analyzeIn
          (callOf "let*" [(.sym "x", .nil)] [callOf "let*" [(.sym "x", .sym "x")] [.sym "x"]])
          (.empty (.plain "user"))).run.run ⟨.empty, .start⟩ =
        (.ok (.of (.letBlock bs (.of (.sequence []
            (.of (.letBlock cs body) (callOf "let*" [(.sym "x", .sym "x")] [.sym "x"]) mid) true)
            (.call "do" [callOf "let*" [(.sym "x", .sym "x")] [.sym "x"]]) mid))
          (callOf "let*" [(.sym "x", .nil)] [callOf "let*" [(.sym "x", .sym "x")] [.sym "x"]])
          (.empty (.plain "user"))), t) := by
  have hdeep (e : AnalysisError) (t : Store) (he : (Analyzer.plain.analyzeIn
      (callOf "let*" [(.sym "x", .nil)] [callOf "let*" [(.sym "x", .sym "x")] [.sym "x"]])
      (.empty (.plain "user"))).run.run ⟨.empty, .start⟩ = (.error e, t)) : ¬e.IsTooDeep := by
    cases he
  obtain ⟨n, t, hrun⟩ : ∃ n t, (Analyzer.plain.analyzeIn
      (callOf "let*" ([(.sym "x", .nil)] ++ [(.sym "x", .sym "x")]) [.sym "x"])
      (.empty (.plain "user"))).run.run ⟨.empty, .start⟩ = (.ok n, t) := ⟨_, _, rfl⟩
  obtain ⟨-, hsplit⟩ := let_split (a := .plain) (fun _ _ => rfl)
    (calls_callOf "let*" ([(.sym "x", .nil)] ++ [(.sym "x", .sym "x")]) [.sym "x"])
    (calls_callOf "let*" [(.sym "x", .nil)] [callOf "let*" [(.sym "x", .sym "x")] [.sym "x"]])
    (calls_callOf "let*" [(.sym "x", .sym "x")] [.sym "x"]) (.empty (.plain "user"))
    ⟨.empty, .start⟩ hdeep
  obtain ⟨bs, cs, body, mid, hnode, hnested⟩ := hsplit n t hrun
  exact ⟨hdeep, n, t, bs, cs, body, mid, hrun, hnode, hnested⟩

end LispFront
