import LispFront.Proofs.Analysis.Calls
import LispFront.Proofs.Analysis.Effect.Analyzer
import LispFront.Proofs.Analysis.Expansion

/-!
# Finding what was defined

A definition interns its var in the namespace of its environment, whether the name is qualified with
that namespace or not. Looking up the bare name asks that namespace and always finds the var.
Looking up the qualified name asks the aliases first, so it finds the var unless the namespace has
given its own name to another one.
-/

namespace LispFront

open AnalyzerM

namespace Directory

variable {d : Directory} {home N : String} {x : Symbol} {w : Var}

theorem resolve?_own {name : String} (hd : d.Consistent)
    (hw : d.var? (.plain N) (.plain name) = some w) :
    (∃ v, d.resolve? (.plain N) (.qualified N name) = some v ∧ v.id = w.id) ↔
      ∀ target, d.aliasTarget? (.plain N) (.plain N) = some target → target = .plain N := by
  rw [resolve?_qualified, resolveNamespace?_eq]
  cases htarget : d.aliasTarget? (.plain N) (.plain N) with
  | none =>
    obtain ⟨n, hn, -⟩ := Option.bind_eq_some_iff.mp hw
    have hname := hd.named _ n hn
    simp [hn, hname, hw]
  | some target =>
    constructor
    · rintro ⟨v, hv, hid⟩ target' htarget'
      cases htarget'
      -- the var of another namespace has that namespace in its id
      have hvid : v.id = ⟨target, .plain name⟩ := hd.vars _ _ _ hv
      have hwid : w.id = ⟨.plain N, .plain name⟩ := hd.vars _ _ _ hw
      rw [hvid, hwid] at hid
      exact congrArg VarName.ns hid
    · intro h
      rw [h target rfl]
      exact ⟨w, hw, rfl⟩

/-- Directories that clients get to, calling and analyzing as they like. -/
inductive Reachable : Directory → Prop
  | empty : Reachable .empty
  | call {d : Directory} (c : Call) : Reachable d → Reachable (d.after c)
  | analysis {s : Store} (a : Analyzer) (form : Form) (env : Env) : Reachable s.directory →
      Reachable ((a.analyzeIn form env).run.run s).2.directory

theorem Reachable.consistent {d : Directory} (h : Reachable d) : d.Consistent := by
  induction h with
  | empty => exact records_empty.consistent
  | call c _ ih => exact ih.after c
  | analysis a form env _ ih => exact consistent_of_analyzeIn ih rfl

theorem Reachable.run {d : Directory} (h : Reachable d) (calls : List Call) :
    Reachable (d.run calls) := by
  induction calls generalizing d with
  | nil => exact h
  | cons c calls ih => exact ih (h.call c)

end Directory

theorem yields_intern (ns name : Symbol) (metadata : FormMap) (form : Form) :
    Yields (intern ns name metadata form) fun v => v.id.name = name := by
  intro s v t h
  rw [run_intern] at h
  rcases hv : s.directory.intern ns name metadata with e | ⟨w, d⟩
  · rw [hv] at h
    cases h
  · rw [hv] at h
    cases h
    obtain ⟨n, -, rfl, -⟩ := Directory.exists_put_of_intern hv
    rfl

theorem yields_definition_name (form : Form) (x : Symbol) (m : FormMap) (rest : List Form)
    (env : Env) :
    Yields (Definition.ofArgs form (.symbol x m :: rest) env) fun d => d.name = .plain x.name := by
  unfold Definition.ofArgs
  dsimp only
  split
  · exact yields_bind yields_true fun r _ => yields_pure rfl
  · exact yields_fail _ _

theorem defined_of_analyzeDef (recurse : Recurse) (form : Form) (x : Symbol) (m : FormMap)
    (rest : List Form) (env : Env) :
    Yields (analyzeDef recurse form (.symbol x m :: rest) env) fun n =>
      ∃ v, n.op.defined? = some v ∧ v.id.name = .plain x.name := by
  unfold analyzeDef
  refine yields_bind (yields_definition_name form x m rest env) fun d hd => ?_
  refine yields_bind (yields_intern _ _ _ _) fun v hv => ?_
  have hrest (metadata : Option Node) : Yields (do
      let init ← d.init.mapM (recurse · (env.withContext .expr))
      return Node.of (.define v d.doc metadata init) form env) fun n =>
        ∃ v, n.op.defined? = some v ∧ v.id.name = .plain x.name :=
    yields_bind yields_true fun init _ => yields_pure ⟨v, rfl, hv.trans hd⟩
  dsimp only
  split
  · exact yields_bind yields_true fun metadata _ => hrest metadata
  · exact yields_bind yields_true fun metadata _ => hrest metadata

def varCall (x : Symbol) : Form := .call "var" [.symbol x []]

section Analysis

variable {a b : Analyzer} {env : Env} {s t : Store} {n : Node}

theorem run_analyzeVar (form : Form) (x : Symbol) (m : FormMap) (env : Env) (s : Analysis) :
    (analyzeVar form [.symbol x m] env).run.run s =
      (match s.view.resolve? env.ns x with
      | some w => .ok (.of (.theVar w) form env)
      | none => .error (.of (.varNotFound (.symbol x m)) form), s) := by
  change (match s.view.resolve? env.ns x with
    | some w => (return Node.of (.theVar w) form env : AnalyzerM Node)
    | none => AnalyzerM.fail (.varNotFound (.symbol x m)) form).run.run s = _
  cases s.view.resolve? env.ns x with
  | some w => rfl
  | none => rfl

theorem analyzeIn_var_eq_ok (hexpand : ∀ f e, b.expand f e = .ok f) (hdepth : 0 < b.maxDepth)
    {x : Symbol} {w : Var} :
    (b.analyzeIn (varCall x) env).run.run s = (.ok (.of (.theVar w) (varCall x) env), s) ↔
      s.directory.resolve? env.ns x = some w := by
  have hcall (levels : Nat) : (b.analyzeUpTo (levels + 1) (varCall x) env).run.run (.start s) =
      (within (varCall x) (analyzeVar (varCall x) [.symbol x []] env)).run.run (.start s) :=
    run_analyzeUpTo_call (hexpand _ _) (Form.beq_iff_bare.mpr rfl) (.start s)
  obtain ⟨levels, hlevels⟩ := Nat.exists_eq_add_of_lt hdepth
  have hview : (Analysis.start s).view = s.directory := rfl
  rw [Analyzer.run_analyzeIn, hlevels, Nat.zero_add, hcall, run_within, run_analyzeVar, hview]
  cases s.directory.resolve? env.ns x with
  | some v =>
    constructor
    · intro h
      cases h
      rfl
    · intro h
      cases h
      rfl
  | none => exact ⟨nofun, nofun⟩

/-- What is defined is found under its bare name, and under the name qualified with the namespace
unless that namespace gave its own name to another one. -/
theorem defined_found_by_name {N : String} {x : Symbol} {m m' m'' : FormMap} {rest : List Form}
    {g : Form} (hd : s.directory.Reachable) (hns : env.ns = .plain N)
    (hg : a.expand (.list (.symbol (.plain "def") m' :: .symbol x m :: rest) m'') env = .ok g)
    (heq : g == .list (.symbol (.plain "def") m' :: .symbol x m :: rest) m'')
    (h : (a.analyzeIn (.list (.symbol (.plain "def") m' :: .symbol x m :: rest) m'') env).run.run s =
      (.ok n, t))
    (hexpand : ∀ f e, b.expand f e = .ok f) (hdepth : 0 < b.maxDepth) :
    ∃ v w, n.op.defined? = some v ∧ v.id = ⟨.plain N, .plain x.name⟩ ∧ n.Defines w ∧ w.id = v.id ∧
      (b.analyzeIn (varCall (.plain x.name)) env).run.run t =
        (.ok (.of (.theVar w) (varCall (.plain x.name)) env), t) ∧
      ((∃ w', (b.analyzeIn (varCall (.qualified N x.name)) env).run.run t =
          (.ok (.of (.theVar w') (varCall (.qualified N x.name)) env), t) ∧ w'.id = v.id) ↔
        ∀ target, s.directory.aliasTarget? (.plain N) (.plain N) = some target →
          target = .plain N) := by
  have hconsistent := hd.consistent
  obtain ⟨vs, hvs, hn⟩ : ∃ vs, s.directory.Interned env.ns vs t.directory ∧
      Accounts env.ns vs [n] := by
    have hs := analyzeUpTo_accounted a a.maxDepth
      (.list (.symbol (.plain "def") m' :: .symbol x m :: rest) m'') env rfl (.start s)
    rwa [Analyzer.run_analyzeIn_iff.mp h] at hs
  obtain ⟨v, hv, hname⟩ : ∃ v, n.op.defined? = some v ∧ v.id.name = .plain x.name := by
    rw [Analyzer.run_analyzeIn_iff] at h
    rcases hmax : a.maxDepth with - | levels
    · rw [hmax] at h
      cases h
    · rw [hmax, run_analyzeUpTo_call hg heq] at h
      exact yields_within _ (defined_of_analyzeDef _ _ x m rest env) _ n _ h
  have hmem (v : Var) : v ∈ vs ↔ n.Defines v := by simpa using hn.mem_iff v
  have hvmem : v ∈ vs := (hmem v).mpr ⟨_, _, .here n, hv⟩
  have hid : v.id = ⟨.plain N, .plain x.name⟩ := by
    rw [hvs.id_eq hconsistent v hvmem, hname, hns]
  obtain ⟨w, hw, hwid, hmapped⟩ := hvs.var?_of_mem hconsistent hvmem
  rw [hid, hns] at hmapped
  refine ⟨v, w, hv, hid, (hmem w).mp hw, hwid, ?_, ?_⟩
  · rw [analyzeIn_var_eq_ok hexpand hdepth, hns]
    exact hmapped
  · simp only [analyzeIn_var_eq_ok hexpand hdepth, hns, ← hwid]
    rw [Directory.resolve?_own (hvs.consistent hconsistent) hmapped]
    simp only [(hvs.changesOnly hconsistent).aliases]

end Analysis

def Directory.fresh (ns : Symbol) : Directory := Directory.empty.run [.create ns]

theorem defined_found_by_name_in_fresh :
    ∃ n t v w, (Analyzer.analyzeIn { home := .plain "user" } (.call "def" [.sym "x", .number 1])
        (.empty (.plain "user"))).run.run ⟨.fresh (.plain "user"), .start⟩ = (.ok n, t) ∧
      n.op.defined? = some v ∧ v.id = ⟨.plain "user", .plain "x"⟩ ∧ n.Defines w ∧ w.id = v.id ∧
      (Analyzer.analyzeIn { home := .plain "user" } (varCall (.plain "x"))
        (.empty (.plain "user"))).run.run t =
          (.ok (.of (.theVar w) (varCall (.plain "x")) (.empty (.plain "user"))), t) ∧
      ∃ w', (Analyzer.analyzeIn { home := .plain "user" } (varCall (.qualified "user" "x"))
        (.empty (.plain "user"))).run.run t =
          (.ok (.of (.theVar w') (varCall (.qualified "user" "x")) (.empty (.plain "user"))), t) ∧
        w'.id = v.id := by
  obtain ⟨n, t, h⟩ : ∃ n t,
      (Analyzer.analyzeIn { home := .plain "user" } (.call "def" [.sym "x", .number 1])
        (.empty (.plain "user"))).run.run ⟨.fresh (.plain "user"), .start⟩ = (.ok n, t) :=
    ⟨_, _, rfl⟩
  obtain ⟨v, w, hv, hid, hw, hwid, hplain, hqualified⟩ := defined_found_by_name
    (Directory.Reachable.empty.run _) rfl rfl rfl h (fun f e => rfl) (b := { home := .plain "user" })
    (by decide)
  exact ⟨n, t, v, w, h, hv, hid, hw, hwid, hplain, hqualified.mpr nofun⟩

/-- Inside `user` its own name stands for `core`: the var that was just defined is not found under
the name qualified with `user`. -/
theorem defined_missed_under_own_alias :
    ∃ n t v e, (Directory.empty.run [.create (.plain "core"), .create (.plain "user"),
        .addAlias (.plain "user") (.plain "user") (.plain "core")]).Reachable ∧
      (Analyzer.analyzeIn { home := .plain "user" } (.call "def" [.sym "x", .number 1])
        (.empty (.plain "user"))).run.run ⟨Directory.empty.run [.create (.plain "core"),
          .create (.plain "user"), .addAlias (.plain "user") (.plain "user") (.plain "core")],
          .start⟩ = (.ok n, t) ∧
      n.op.defined? = some v ∧
      (Analyzer.analyzeIn { home := .plain "user" } (varCall (.qualified "user" "x"))
        (.empty (.plain "user"))).run.run t = (.error e, t) ∧
      e.fault = .varNotFound (.symbol (.qualified "user" "x") []) :=
  ⟨_, _, _, _, Directory.Reachable.empty.run _, rfl, rfl, rfl, rfl⟩

end LispFront
