import Mathlib.Data.Sum.Basic
import LispFront.Proofs.Analysis.Counter
import LispFront.Proofs.Analysis.Effect.Analyzer
import LispFront.Proofs.Analysis.Relational.Renumbered

/-!
# The loop ids of an analysis

Each loop and each method of a tree has an id of its own, and these are the ids that were drawn on
the way to the tree. What else the ids are does not matter to the analysis: they stand in the tree,
in its environments and in what its `recur`s go back to, and nothing depends on them.
-/

namespace LispFront

open AnalyzerM Correspondence

/-- Loop ids are nothing but names to an analysis that is done in different environments, and its
trees have no ids but those of the environment and those that were drawn. -/
structure NamesIds (x : Env → AnalyzerM Node) : Prop where
  renumbered {ρ : Symbol → Symbol} {k : Nat} (env : Env) : Shifts ρ k →
    (renumbered ρ k fun _ => False).Relates (x env) (x (env.mapIds ρ))
      (renumbered ρ k fun _ => False).node
  tallied {ρ : Symbol → Symbol} {H : Prop} (env : Env) : env.Kept env.ns ρ H →
    Writes env.ns (x env) fun es n => Tallies env.ns ρ H es [n]

theorem namesIds_analyzeUpTo {a : Analyzer} (ha : a.IgnoresLoopIds) (levels : Nat) (form : Form) :
    NamesIds (a.analyzeUpTo levels form) where
  renumbered env hρ := recurses_renumbered ha hρ levels form form env _ rfl (envLike_mapIds env)
  tallied env he := analyzeUpTo_tallied a levels form env he

theorem namesIds_analyzeBody {a : Analyzer} (ha : a.IgnoresLoopIds) (levels : Nat)
    (exprs : List Form) : NamesIds (analyzeBody (a.analyzeUpTo levels) exprs) where
  renumbered env hρ := relates_analyzeBody (renumbered_lawful hρ fun _ _ h => h)
    (List.forall₂_same.mpr fun _ _ => rfl) (envLike_mapIds env) (recurses_renumbered ha hρ levels)
  tallied _ he := writes_analyzeBody (analyzeUpTo_tallied a levels) exprs he

section Run

variable {x : Env → AnalyzerM Node} (hx : NamesIds x) {env : Env} {s t : Analysis} {n : Node}
include hx

theorem names_of_run {r : Except AnalysisError Node} (h : (x env).run.run s = (r, t)) :
    ∃ m, t.names = s.names.after m := by
  have hs := hx.tallied env (Env.kept_false rfl) s
  rw [h] at hs
  cases r with
  | error e =>
    obtain ⟨es, hes⟩ := hs
    exact ⟨_, hes.drawn.2⟩
  | ok n =>
    obtain ⟨es, hes, -⟩ := hs
    exact ⟨_, hes.drawn.2⟩

variable (h : (x env).run.run s = (.ok n, t))
include h

theorem tallied_of_run {ρ : Symbol → Symbol} {H : Prop} (he : env.Kept env.ns ρ H) :
    ∃ es, Tallies env.ns ρ H es [n] ∧
      es.filterMap Effect.id? = (List.range n.loopIds.length).map s.names.loopId ∧
      t.names = s.names.after n.loopIds.length := by
  have hs := hx.tallied env he s
  rw [h] at hs
  obtain ⟨es, hes, htally⟩ := hs
  have hdrawn := hes.drawn
  rw [htally.loopIds.length_eq] at hdrawn
  exact ⟨es, htally, hdrawn⟩

theorem perm_loopIds_of_run :
    n.loopIds.Perm ((List.range n.loopIds.length).map s.names.loopId) ∧
      t.names = s.names.after n.loopIds.length := by
  obtain ⟨es, htally, hdrawn, hnames⟩ := tallied_of_run hx h (Env.kept_false rfl)
  exact ⟨hdrawn ▸ htally.loopIds.symm, hnames⟩

theorem mapIds_of_run {ρ : Symbol → Symbol} (henv : env.mapIds ρ = env)
    (hids : ∀ i < n.loopIds.length, ρ (s.names.loopId i) = s.names.loopId i) : n.mapIds ρ = n := by
  obtain ⟨es, htally, hdrawn, -⟩ := tallied_of_run hx h (H := True)
    (Env.kept_iff.mpr ⟨rfl, fun _ => henv⟩)
  refine htally.fixed trivial (fun id hid => ?_) n List.mem_cons_self
  have hmem : id ∈ es.filterMap Effect.id? := List.mem_filterMap.mpr ⟨_, hid, rfl⟩
  rw [hdrawn] at hmem
  obtain ⟨i, hi, rfl⟩ := List.mem_map.mp hmem
  exact hids i (List.mem_range.mp hi)

end Run

/-- A symbol of its own for each symbol, none of which is ever drawn. -/
def Symbol.mark (s : Symbol) : Symbol := .qualified ((s.ns.map ("/" ++ ·)).getD "") s.name

theorem Symbol.mark_injective : Function.Injective Symbol.mark := by
  rintro ⟨ns, name⟩ ⟨ns', name'⟩ h
  obtain ⟨hns, hname⟩ := Symbol.mk.inj h
  cases ns <;> cases ns' <;> simp_all

def markedId : Symbol ⊕ UInt64 → Symbol :=
  Sum.elim Symbol.mark fun count => (NameSupply.mk count).peek "loop_"

theorem markedId_injective : Function.Injective markedId := by
  refine Symbol.mark_injective.sumElim (fun u v h => ?_) fun s u => nofun
  exact congrArg NameSupply.count (NameSupply.eq_of_peek_eq h)

/-- Where an id comes from: from an environment with marked ids, or from a supply that started with
the first name. -/
noncomputable def idOrigin (s : Symbol) : Symbol ⊕ Nat :=
  (Function.invFun markedId s).map id UInt64.toNat

theorem idOrigin_markedId (x : Symbol ⊕ UInt64) :
    idOrigin (markedId x) = x.map id UInt64.toNat := by
  rw [idOrigin, Function.leftInverse_invFun markedId_injective]

theorem idOrigin_mark (s : Symbol) : idOrigin s.mark = .inl s := idOrigin_markedId (.inl s)

theorem idOrigin_peek (s : NameSupply) : idOrigin (s.peek "loop_") = .inr s.count.toNat :=
  idOrigin_markedId (.inr s.count)

noncomputable def fillId (ρ : Symbol → Symbol) (names : NameSupply) (s : Symbol) : Symbol :=
  (idOrigin s).elim ρ names.loopId

noncomputable def idOriginBelow (m : Nat) (s : Symbol) : Symbol ⊕ Fin m :=
  (idOrigin s).elim .inl fun i => if h : i < m then .inr ⟨i, h⟩ else .inl default

noncomputable def dropAbove (m : Nat) (s : Symbol) : Symbol :=
  (idOrigin s).elim (fun _ => s) fun i => if i < m then s else Symbol.mark default

section Marked

variable {ρ : Symbol → Symbol} {names : NameSupply} {m : Nat}

theorem fillId_mark (s : Symbol) : fillId ρ names s.mark = ρ s := by
  rw [fillId, idOrigin_mark]
  rfl

theorem shifts_fillId (ρ : Symbol → Symbol) (names : NameSupply) :
    Shifts (fillId ρ names) names.count.toNat := by
  intro s
  rw [fillId, idOrigin_peek]
  exact congrArg (NameSupply.peek · "loop_") (names.after_comm s)

theorem fillId_dropAbove (s : Symbol) :
    fillId ρ names (dropAbove m s) =
      (idOriginBelow m s).elim ρ fun i : Fin m => names.loopId i := by
  unfold dropAbove idOriginBelow
  cases hs : idOrigin s with
  | inl x =>
    rw [Sum.elim_inl, Sum.elim_inl, Sum.elim_inl, fillId, hs, Sum.elim_inl]
  | inr i =>
    rw [Sum.elim_inr, Sum.elim_inr]
    by_cases hi : i < m
    · rw [if_pos hi, dif_pos hi, fillId, hs]
      rfl
    · rw [if_neg hi, dif_neg hi]
      exact fillId_mark default

theorem dropAbove_mark (s : Symbol) : dropAbove m s.mark = s.mark := by
  rw [dropAbove, idOrigin_mark]
  rfl

theorem dropAbove_loopId {i : Nat} (hi : i < m) :
    dropAbove m (NameSupply.start.loopId i) = NameSupply.start.loopId i := by
  have hlt : (NameSupply.start.after i).count.toNat < m := by
    rw [NameSupply.start_after]
    exact Nat.lt_of_le_of_lt (Nat.mod_le i _) hi
  rw [dropAbove, NameSupply.loopId, idOrigin_peek]
  exact if_pos hlt

variable {x : Env → AnalyzerM Node} (hx : NamesIds x) {env : Env} {s t : Analysis}
include hx

/-- One run gives all others: that from the first name, in an environment with marked ids. -/
theorem run_of_marked {r : Except AnalysisError Node}
    (h : (x (env.mapIds Symbol.mark)).run.run (s.withNames .start) = (r, t))
    (ht : t.names = NameSupply.start.after m) (ρ : Symbol → Symbol) (names : NameSupply) :
    (x (env.mapIds ρ)).run.run (s.withNames names) =
      (r.map (Node.mapIds (fillId ρ names)), t.withNames (names.after m)) := by
  -- marked ids and drawn ids never meet, so one renaming can send both where they belong
  have hrun := run_of_renumbered (hx.renumbered (env.mapIds Symbol.mark) (shifts_fillId ρ names)) h
  have hmarked : fillId ρ names ∘ Symbol.mark = ρ := funext fillId_mark
  have hstart : (s.withNames .start).skip names.count.toNat = s.withNames names :=
    congrArg s.withNames ((NameSupply.start.after_comm names).trans names.after_zero)
  have hend : t.skip names.count.toNat = t.withNames (names.after m) := by
    refine congrArg t.withNames ?_
    rw [ht]
    exact names.after_start_after m
  rwa [Env.mapIds_comp, hmarked, hstart, hend] at hrun

theorem mapIds_fillId {n : Node}
    (h : (x (env.mapIds Symbol.mark)).run.run (s.withNames .start) = (.ok n, t)) :
    n.mapIds (fillId ρ names) = n.mapIds fun id =>
      (idOriginBelow n.loopIds.length id).elim ρ fun i : Fin _ => names.loopId i := by
  have hmarked : dropAbove n.loopIds.length ∘ Symbol.mark = Symbol.mark := funext dropAbove_mark
  have henv : (env.mapIds Symbol.mark).mapIds (dropAbove n.loopIds.length) =
      env.mapIds Symbol.mark := by
    rw [Env.mapIds_comp, hmarked]
  have hn := mapIds_of_run hx h henv fun i hi => dropAbove_loopId hi
  conv_lhs => rw [← hn, Node.mapIds_comp]
  exact congrArg n.mapIds (funext fillId_dropAbove)

/-- All runs from one state are one run, with the ids of the environment and of the supply put
in: they give the same tree, or fail in the same way. -/
theorem exists_template (env : Env) (s : Analysis) :
    ∃ (m : Nat) (template : Except AnalysisError Node) (origin : Symbol → Symbol ⊕ Fin m)
      (t : Analysis), (∀ n, template = .ok n → n.loopIds.length = m) ∧
      ∀ ρ names, (x (env.mapIds ρ)).run.run (s.withNames names) =
        (template.map (Node.mapIds fun id => (origin id).elim ρ fun i : Fin m => names.loopId i),
          t.withNames (names.after m)) := by
  obtain ⟨⟨r, t⟩, h⟩ :
      ∃ q, (x (env.mapIds Symbol.mark)).run.run (s.withNames .start) = q := ⟨_, rfl⟩
  cases r with
  | error e =>
    obtain ⟨m, ht⟩ := names_of_run hx h
    exact ⟨m, .error e, .inl, t, nofun, run_of_marked hx h ht⟩
  | ok template =>
    refine ⟨template.loopIds.length, .ok template, idOriginBelow _, t, ?_,
      fun ρ names => ?_⟩
    · rintro _ ⟨⟩
      rfl
    · rw [run_of_marked hx h (perm_loopIds_of_run hx h).2, Except.map, mapIds_fillId hx h]
      rfl

end Marked

/-- Ids are fresh and nothing but names. First, the loops and methods of a tree have the ids that
were drawn, each of them one. Second, there is one tree for all numberings, in which each id is
marked as one that the environment came with or as one of those that were drawn: whatever the ids in
the environment are and wherever the supply starts, the analysis gives that tree with these ids put
in, or it gives the same error. -/
theorem loopIds_of_analyzeIn {a : Analyzer} (ha : a.IgnoresLoopIds) (form : Form) (env : Env)
    (d : Directory) :
    (∀ names n t, (a.analyzeIn form env).run.run ⟨d, names⟩ = (.ok n, t) →
      n.loopIds.Perm ((List.range n.loopIds.length).map names.loopId) ∧
      (n.loopIds.length < UInt64.size → n.loopIds.Nodup) ∧
      t.names = names.after n.loopIds.length) ∧
    ∃ (m : Nat) (template : Except AnalysisError Node) (origin : Symbol → Symbol ⊕ Fin m)
      (d' : Directory), (∀ n, template = .ok n → n.loopIds.length = m) ∧
      ∀ ρ names, (a.analyzeIn form (env.mapIds ρ)).run.run ⟨d, names⟩ =
        (template.map (Node.mapIds fun id => (origin id).elim ρ fun i : Fin m => names.loopId i),
          ⟨d', names.after m⟩) := by
  have hx := namesIds_analyzeUpTo ha a.maxDepth form
  refine ⟨fun names n t h => ?_, ?_⟩
  · obtain ⟨hperm, hnames⟩ := perm_loopIds_of_run hx (Analyzer.run_analyzeIn_iff.mp h)
    refine ⟨hperm, fun hlt => ?_, hnames⟩
    exact hperm.nodup_iff.mpr (names.nodup_loopIds hlt)
  · obtain ⟨m, template, origin, t, hlength, hrun⟩ := exists_template hx env (.start ⟨d, .start⟩)
    refine ⟨m, template, origin, t.directory, hlength, fun ρ names => ?_⟩
    exact Analyzer.run_analyzeIn_of_levels (hrun ρ names)

def loopFromLoop : Form :=
  .call "loop*" [.vector [.sym "x", .call "loop*" [.vector [] [], .nil]] [],
    .call "if" [.sym "x", .call "recur" [.nil], .nil]]

theorem loopIds_of_loopFromLoop :
    ∃ n t,
      (Analyzer.analyzeIn { home := .plain "user" } loopFromLoop
        ((Env.empty (.plain "user")).withLoop (.plain "loop_8") 0)).run.run
          ⟨Directory.empty.create (.plain "user"), ⟨7⟩⟩ = (.ok n, t) ∧
      n.loopIds.Perm ((List.range n.loopIds.length).map (NameSupply.mk 7).loopId) ∧
      NameSupply.mk 9 = (NameSupply.mk 7).after n.loopIds.length ∧
      ∃ (m : Nat) (template : Node) (origin : Symbol → Symbol ⊕ Fin m),
        template.loopIds.length = m ∧ ∀ ρ names, ∃ t',
          (Analyzer.analyzeIn { home := .plain "user" } loopFromLoop
            (((Env.empty (.plain "user")).withLoop (.plain "loop_8") 0).mapIds ρ)).run.run
              ⟨Directory.empty.create (.plain "user"), names⟩ =
            (.ok (template.mapIds fun id => (origin id).elim ρ fun i : Fin m => names.loopId i),
              t') := by
  have hnoop : Analyzer.IgnoresLoopIds { home := .plain "user" } := fun _ _ _ => rfl
  obtain ⟨hids, m, template, origin, d', hlength, hall⟩ := loopIds_of_analyzeIn hnoop loopFromLoop
    ((Env.empty (.plain "user")).withLoop (.plain "loop_8") 0)
    (Directory.empty.create (.plain "user"))
  obtain ⟨n, t, h, ht⟩ : ∃ n t,
      (Analyzer.analyzeIn { home := .plain "user" } loopFromLoop
        ((Env.empty (.plain "user")).withLoop (.plain "loop_8") 0)).run.run
          ⟨Directory.empty.create (.plain "user"), ⟨7⟩⟩ = (.ok n, t) ∧ t.names = ⟨9⟩ :=
    ⟨_, _, rfl, rfl⟩
  obtain ⟨hperm, -, hnames⟩ := hids _ n t h
  refine ⟨n, t, h, hperm, ht ▸ hnames, m, ?_⟩
  cases template with
  | ok template =>
    exact ⟨template, origin, hlength template rfl, fun ρ names => ⟨_, hall ρ names⟩⟩
  | error e =>
    have herror := hall id ⟨7⟩
    rw [Env.mapIds_id, h] at herror
    cases herror

end LispFront
