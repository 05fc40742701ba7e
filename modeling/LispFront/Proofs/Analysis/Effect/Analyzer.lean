import LispFront.Proofs.Analysis.Counter
import LispFront.Proofs.Analysis.Effect.Binders

/-!
# What an analysis does to its store

An analysis writes to the directory by interning vars in the namespace of its environment. The vars
it interned are those that the definitions in its tree name; none of them gets lost on the way. The
loop ids it drew are those of the loops and methods in its tree.
-/

namespace LispFront

open AnalyzerM

variable {ns : Symbol} {ρ : Symbol → Symbol} {H : Prop}

theorem writes_expansion (a : Analyzer) (form : Form) (e : Env) :
    Writes ns (a.expansion form e) fun es _ => es = [] := by
  unfold Analyzer.expansion
  split
  · exact writes_pure rfl
  · exact fun s => ⟨[], .nil s.toStore⟩

theorem writes_analyzeName (a : Analyzer) (form : Form) (s : Symbol) {e : Env}
    (he : e.Kept ns ρ H) :
    Writes ns (a.analyzeName form s e) fun es n => Tallies ns ρ H es [n] := by
  unfold Analyzer.analyzeName
  split
  · exact writes_pure (.leaf he form rfl rfl)
  · refine writes_bind writes_directory ?_
    rintro _ d rfl
    split
    · exact writes_pure (.leaf he form rfl rfl)
    · split
      · exact writes_pure (.leaf he form rfl rfl)
      · split
        · exact writes_pure (.leaf he form rfl rfl)
        · exact writes_fail _ _

section Level

variable {recurse : Recurse} (hr : recurse.Tallied ns ρ)
include hr

theorem writes_analyzeInvoke (form head : Form) (args : List Form) {e : Env} (he : e.Kept ns ρ H) :
    Writes ns (Analyzer.analyzeInvoke recurse form head args e) fun es n =>
      Tallies ns ρ H es [n] := by
  unfold Analyzer.analyzeInvoke
  refine writes_bind (hr _ _ he) fun es fn hf => ?_
  refine writes_bind (writes_analyzeAll hr _ he) fun fs args ha => ?_
  exact writes_pure (.node (hf.cons (ha.append .nil)) rfl he)

theorem writes_analyzeExpansion (form expansion : Form) {e : Env} (he : e.Kept ns ρ H) :
    Writes ns (Analyzer.analyzeExpansion recurse form expansion e) fun es n =>
      Tallies ns ρ H es [n] := by
  unfold Analyzer.analyzeExpansion
  refine writes_bind (hr _ _ he) fun es n hn => writes_pure ?_
  rw [List.append_nil]
  exact hn.congr rfl hn.env_kept

theorem writes_analyzeCall (form head : Form) (args : List Form) {e : Env} (he : e.Kept ns ρ H) :
    Writes ns (Analyzer.analyzeCall recurse form head args e) fun es n => Tallies ns ρ H es [n] := by
  unfold Analyzer.analyzeCall
  split
  · exact writes_analyzeInvoke hr form head args he
  · exact writes_analyzeSequence hr form args false he
  · exact writes_analyzeIf hr form args he
  · exact writes_analyzeNew hr form args he
  · exact writes_analyzeQuote form args he
  · exact writes_analyzeAssign hr form args he
  · exact writes_analyzeTry hr form args he
  · exact writes_analyzeThrow hr form args he
  · exact writes_analyzeDef hr form args he
  · exact writes_analyzeDot hr form args he
  · exact writes_analyzeLet hr form args he
  · exact writes_analyzeLetfn hr form args he
  · exact writes_analyzeLoop hr form args he
  · exact writes_analyzeRecur hr form args he
  · exact writes_analyzeFn hr form head args he
  · exact writes_analyzeVar form args he
  · exact writes_analyzeCase hr form args he

theorem writes_analyzeSymbol (a : Analyzer) (form : Form) (s : Symbol) {e : Env}
    (he : e.Kept ns ρ H) :
    Writes ns (a.analyzeSymbol recurse form s e) fun es n => Tallies ns ρ H es [n] := by
  unfold Analyzer.analyzeSymbol
  refine writes_bind (writes_expansion a form e) ?_
  rintro _ expansion rfl
  split
  · exact writes_analyzeName a form s he
  · exact writes_analyzeExpansion hr form expansion he

theorem writes_analyzeList (a : Analyzer) (form head : Form) (args : List Form) {e : Env}
    (he : e.Kept ns ρ H) :
    Writes ns (a.analyzeList recurse form head args e) fun es n => Tallies ns ρ H es [n] := by
  unfold Analyzer.analyzeList
  split
  · exact writes_fail _ _
  · refine writes_bind (writes_expansion a form e) ?_
    rintro _ expansion rfl
    refine writes_within form ?_
    split
    · exact writes_analyzeCall hr form head args he
    · exact writes_analyzeExpansion hr form expansion he

theorem writes_analyzeLevel (a : Analyzer) (form : Form) {e : Env} (he : e.Kept ns ρ H) :
    Writes ns (a.analyzeLevel recurse form e) fun es n => Tallies ns ρ H es [n] := by
  unfold Analyzer.analyzeLevel
  split
  · exact writes_analyzeSymbol hr a _ _ he
  · exact writes_analyzeList hr a _ _ _ he
  · exact writes_analyzeItems hr .vector _ _ he (fun _ => rfl) (fun _ => rfl)
  · exact writes_analyzeMap hr _ _ he
  · exact writes_analyzeItems hr .set _ _ he (fun _ => rfl) (fun _ => rfl)
  · exact writes_pure (.constant he _)

end Level

theorem analyzeUpTo_tallied (a : Analyzer) (levels : Nat) : (a.analyzeUpTo levels).Tallied ns ρ := by
  induction levels with
  | zero => exact fun _ f e _ => writes_fail _ _
  | succ levels ih => exact fun _ f e he => writes_analyzeLevel ih a f he

theorem analyzeUpTo_accounted (a : Analyzer) (levels : Nat) (form : Form) (e : Env)
    (he : e.ns = ns) :
    Interns ns (a.analyzeUpTo levels form e) fun vs n => Accounts ns vs [n] := by
  have htallied := analyzeUpTo_tallied a levels form e (Env.kept_false he)
  exact interns_of_writes (writes_mono htallied fun _ _ h => h.accounts)

theorem consistent_of_analyzeIn {a : Analyzer} {form : Form} {env : Env} {s t : Store}
    {r : Except AnalysisError Node} (hd : s.directory.Consistent)
    (h : (a.analyzeIn form env).run.run s = (r, t)) : t.directory.Consistent := by
  have hs := analyzeUpTo_accounted a a.maxDepth form env rfl (.start s)
  rw [Analyzer.run_analyzeIn_iff.mp h] at hs
  cases r with
  | error e =>
    obtain ⟨es, hvs⟩ := hs
    exact hvs.consistent hd
  | ok n =>
    obtain ⟨es, hvs, -⟩ := hs
    exact hvs.consistent hd

/-- Nothing but vars in the namespace of the environment changes, and none of them gets lost. When
there is a tree, the names whose vars changed are those of its definitions, and each of these names
stands for the var of one of its definitions. -/
theorem directory_of_analyzeIn {a : Analyzer} {form : Form} {env : Env} {s t : Store}
    {r : Except AnalysisError Node} (hd : s.directory.Consistent)
    (h : (a.analyzeIn form env).run.run s = (r, t)) :
    s.directory.ChangesOnly env.ns t.directory ∧
      ∀ n, r = .ok n →
        (∀ x, t.directory.var? env.ns x ≠ s.directory.var? env.ns x →
          ∃ v, n.Defines v ∧ v.id = ⟨env.ns, x⟩) ∧
        (∀ v, n.Defines v →
          ∃ w, n.Defines w ∧ w.id = v.id ∧ t.directory.var? env.ns v.id.name = some w) ∧
        n.StaysIn env.ns := by
  have hs := analyzeUpTo_accounted a a.maxDepth form env rfl (.start s)
  rw [Analyzer.run_analyzeIn_iff.mp h] at hs
  cases r with
  | error e =>
    obtain ⟨es, hvs⟩ := hs
    exact ⟨hvs.changesOnly hd, nofun⟩
  | ok n =>
    obtain ⟨es, hvs, hn⟩ := hs
    have hdefines : ∀ v, v ∈ es ↔ n.Defines v := fun v => by simpa using hn.mem_iff v
    refine ⟨hvs.changesOnly hd, fun m hm => ?_⟩
    cases hm
    refine ⟨fun x hx => ?_, fun v hv => ?_, hn.staysIn n List.mem_cons_self⟩
    · obtain ⟨v, hv, hid⟩ := hvs.mem_of_changed hd hx
      exact ⟨v, (hdefines v).mp hv, hid⟩
    · obtain ⟨w, hw, hid, hmapped⟩ := hvs.var?_of_mem hd ((hdefines v).mpr hv)
      exact ⟨w, (hdefines w).mp hw, hid, hmapped⟩

theorem directory_of_analyzed_def :
    ∃ n t,
      (Analyzer.analyzeIn { home := .plain "user" } (.call "def" [.sym "x", .nil])
        (.empty (.plain "user"))).run.run ⟨Directory.empty.create (.plain "user"), .start⟩ =
          (.ok n, t) ∧
      (Directory.empty.create (.plain "user")).Consistent ∧
      (Directory.empty.create (.plain "user")).ChangesOnly (.plain "user") t.directory ∧
      t.directory.var? (.plain "user") (.plain "x") ≠
        (Directory.empty.create (.plain "user")).var? (.plain "user") (.plain "x") ∧
      (∃ v, n.Defines v ∧ v.id = ⟨.plain "user", .plain "x"⟩ ∧
        ∃ w, n.Defines w ∧ w.id = v.id ∧ t.directory.var? (.plain "user") (.plain "x") = some w) ∧
      n.StaysIn (.plain "user") := by
  obtain ⟨n, t, h, hmapped⟩ : ∃ n t,
      (Analyzer.analyzeIn { home := .plain "user" } (.call "def" [.sym "x", .nil])
        (.empty (.plain "user"))).run.run ⟨Directory.empty.create (.plain "user"), .start⟩ =
          (.ok n, t) ∧
      (t.directory.var? (.plain "user") (.plain "x")).isSome :=
    ⟨_, _, rfl, rfl⟩
  have hx : t.directory.var? (.plain "user") (.plain "x") ≠
      (Directory.empty.create (.plain "user")).var? (.plain "user") (.plain "x") :=
    Option.isSome_iff_ne_none.mp hmapped
  have hd := (Directory.records_empty.create (.plain "user")).consistent
  obtain ⟨hchanges, hok⟩ := directory_of_analyzeIn hd h
  obtain ⟨hchanged, hdefined, hstays⟩ := hok n rfl
  obtain ⟨v, hv, hid⟩ := hchanged _ hx
  obtain ⟨w, hw, hwv, hmapped⟩ := hdefined v hv
  rw [hid] at hmapped
  exact ⟨n, t, h, hd, hchanges, hx, ⟨v, hv, hid, w, hw, hwv, hmapped⟩, hstays⟩

end LispFront
