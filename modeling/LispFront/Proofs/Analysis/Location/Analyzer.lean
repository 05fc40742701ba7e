import LispFront.Proofs.Analysis.Calls
import LispFront.Proofs.Analysis.Counter
import LispFront.Proofs.Analysis.Location.Raises
import LispFront.Proofs.Tree.Equality
import LispFront.Reader.Machine

/-!
# Where errors are located

Whatever an analysis fails with has come out of a chain of failing analyses: one level fails for a
cause of its own, in the expander or with the expansion, and the levels below are told by induction.
-/

namespace LispFront

open AnalyzerM

/-- Why the analysis of `form` ends with an error, in a certain store. -/
inductive Recurse.Cause (recurse : Recurse) (form : Form) : AnalysisError → Analysis → Prop
  | fault {between : List Form} {f : Form} (fault : AnalysisFault) (t : Analysis) :
      form.Blames between f → Cause recurse form (.of fault f) t
  | part {between : List Form} {part : Form} {env : Env} {s t : Analysis} {e : AnalysisError} :
      form.Part between part → (recurse part env).run.run s = (.error e, t) →
      Cause recurse form e t

theorem Recurse.Composes.fails {recurse : Recurse} {form : Form} {x : AnalyzerM α}
    (hx : recurse.Composes form x) : Fails x (recurse.Cause form) :=
  hx.fails_of (fun _ _ fault t hblames _ => .fault fault t hblames)
    fun _ _ _ hpart _ _ _ hrun => .part hpart hrun

namespace Analyzer

variable {a : Analyzer} {levels : Nat} {form : Form} {env : Env} {s t : Analysis} {e : AnalysisError}

theorem failsWith_of_run (hlevels : levels ≤ a.maxDepth)
    (h : (a.analyzeUpTo levels form env).run.run s = (.error e, t)) :
    a.FailsWith levels form env e t.toStore := by
  let s' : Analysis := { s with depth := a.maxDepth - levels }
  have hcounter : s'.depth + levels = a.maxDepth := Nat.sub_add_cancel hlevels
  have hrun := recurses_counted s.depth hcounter (Nat.lt_succ_self levels) form form env env rfl
    (.refl (fun _ => rfl) (fun _ => rfl) env) s' s ⟨rfl, rfl⟩
  rw [h] at hrun
  rcases hfails : (a.analyzeForm (levels + 1) form env).run.run s' with ⟨r, u⟩
  rw [hfails] at hrun
  cases hrun with
  | error he ht =>
    obtain ⟨-, rfl⟩ := ht
    cases he
    exact ⟨s', u, hcounter, hfails, rfl⟩
  | escape he => exact he.elim

def ExplainsFailures (a : Analyzer) (levels : Nat) : Prop :=
  ∀ form env s e t, (a.analyzeUpTo levels form env).run.run s = (.error e, t) →
    ∃ origin enclosing, a.Raises t.toStore levels form env origin enclosing e

section Level

variable (hlevels : levels ≤ a.maxDepth) (ih : a.ExplainsFailures levels)
include hlevels ih

theorem raises_of_cause (hkeeps : a.Keeps form env)
    (h : (a.analyzeUpTo levels).Cause form e t) :
    ∃ origin enclosing, a.Raises t.toStore (levels + 1) form env origin enclosing (e.leaving form) := by
  cases h with
  | fault fault _ hblames => exact ⟨_, _, .fault fault hkeeps hblames⟩
  | part hpart hrun =>
    obtain ⟨origin, enclosing, hraises⟩ := ih _ _ _ _ _ hrun
    exact ⟨_, _, .part hkeeps hpart (failsWith_of_run hlevels hrun) hraises⟩

theorem raises_of_level {x : AnalyzerM Node} (hx : a.Level (a.analyzeUpTo levels) form env x)
    (h : x.run.run s = (.error e, t)) :
    ∃ origin enclosing, a.Raises t.toStore (levels + 1) form env origin enclosing e := by
  cases hx with
  | expander hform hexpand =>
    cases h
    exact ⟨_, _, .expander hform hexpand⟩
  | @expansion g hform hexpand hne =>
    obtain ⟨e', hrun, rfl⟩ := error_of_leaving h
    rcases error_of_bind hrun with hg | ⟨n, u, -, hpure⟩
    · obtain ⟨origin, enclosing, hraises⟩ := ih _ _ _ _ _ hg
      exact ⟨_, _, .expansion hform hexpand hne (failsWith_of_run hlevels hg) hraises⟩
    · cases hpure
  | construct hkeeps hx =>
    obtain ⟨e', hrun, rfl⟩ := error_of_leaving h
    exact raises_of_cause hlevels ih hkeeps (hx.fails s e' t hrun)

end Level

theorem explainsFailures (a : Analyzer) (hlevels : levels ≤ a.maxDepth) :
    a.ExplainsFailures levels := by
  induction levels with
  | zero =>
    intro form env s e t h
    cases h
    exact ⟨_, _, .tooDeep form env⟩
  | succ levels ih =>
    have hlevels : levels ≤ a.maxDepth := Nat.le_of_succ_le hlevels
    exact fun form env s e t h =>
      raises_of_level hlevels (ih hlevels) (level_analyzeLevel a _ form env) h

/-- An error is located at the form that it blames or else at the nearest enclosing list that is
analyzed as a form, which is the nearest of all if the lists between forms have no locations. An
error out of a located list has a location unless the expander has failed on that list. -/
theorem location_of_analyzeIn {s t : Store}
    (h : (a.analyzeIn form env).run.run s = (.error e, t)) :
    (∃ origin enclosing, a.Raises t a.maxDepth form env origin enclosing e) ∧
    (∀ origin enclosing, a.Raises t a.maxDepth form env origin enclosing e →
      e.fault = origin.fault ∧ e.form = origin.form ∧
      (a.LocatesErrors → origin.location = SourceLocation.of? e.form) ∧
      e.location = origin.location.or (enclosing.findSome? (·.given?)) ∧
      ((∀ c ∈ enclosing, c.locates = false → c.location? = none) →
        e.location = origin.location.or (Enclosure.nearest? enclosing))) ∧
    (form.isCall → (SourceLocation.of? form).isSome →
      e.location.isSome ∨ form.isExpanded ∧ a.expand form env = .error e) := by
  obtain ⟨origin, enclosing, hraises⟩ := explainsFailures a (Nat.le_refl a.maxDepth) form env _ e _
    (run_analyzeIn_iff.mp h)
  refine ⟨⟨origin, enclosing, hraises⟩, fun origin enclosing hraises => ?_,
    hraises.location_isSome⟩
  have hfault : e.fault = origin.fault := by rw [hraises.error_eq]
  have hform : e.form = origin.form := by rw [hraises.error_eq]
  have hlocation : e.location = origin.location.or (enclosing.findSome? (·.given?)) := by
    rw [hraises.error_eq]
  refine ⟨hfault, hform, fun ha => ?_, hlocation, fun hnone => ?_⟩
  · rw [hform]
    exact hraises.origin_location ha
  · rw [hlocation, Enclosure.nearest?_eq hnone]

theorem plain_keeps (form : Form) (env : Env) : plain.Keeps form env :=
  fun _ => ⟨form, rfl, form.beq_refl⟩

def firstLine (column : Nat) : FormMap := Position.metadata ⟨column - 1, 1, column⟩

def undefinedAt (column : Option Int64) : AnalysisError :=
  ⟨.unresolved (.plain "undefined"), .sym "undefined", column.map fun c => ⟨none, 1, some c⟩⟩

theorem plain_raises_undefined (levels : Nat) (env : Env) (t : Store) :
    plain.Raises t (levels + 1) (.sym "undefined") env (undefinedAt none) [] (undefinedAt none) :=
  .fault _ (plain_keeps _ _) (.self _)

def throwUndefined : Form := .list [.sym "throw", .sym "undefined"] (firstLine 5)

theorem location_of_throw :
    ∃ form t,
      read "(do (throw undefined))" = .ok [form] ∧
      (plain.analyzeIn form (.empty (.plain "user"))).run.run ⟨.empty, .start⟩ =
        (.error (undefinedAt (some 5)), t) ∧
      plain.Raises t plain.maxDepth form (.empty (.plain "user")) (undefinedAt none)
        [⟨throwUndefined, true⟩, ⟨form, true⟩] (undefinedAt (some 5)) ∧
      (undefinedAt (some 5)).location =
        Enclosure.nearest? [⟨throwUndefined, true⟩, ⟨form, true⟩] := by
  let form : Form := .list [.sym "do", throwUndefined] (firstLine 1)
  let store : Store := ⟨.empty, .start⟩
  have hname := plain_raises_undefined 253 ((Env.empty (.plain "user")).withContext .expr) store
  have hnameFails : plain.FailsWith 254 (.sym "undefined")
      ((Env.empty (.plain "user")).withContext .expr) (undefinedAt none) store :=
    ⟨{ store with view := .empty, depth := 2 }, _, rfl, rfl, rfl⟩
  have hthrowFails : plain.FailsWith 255 throwUndefined (.empty (.plain "user"))
      (undefinedAt (some 5)) store :=
    ⟨{ store with view := .empty, depth := 1 }, _, rfl, rfl, rfl⟩
  have hthrow : plain.Raises store 255 throwUndefined (.empty (.plain "user")) (undefinedAt none)
      [⟨throwUndefined, true⟩] (undefinedAt (some 5)) :=
    .part (plain_keeps _ _) (.elem (.tail _ (.head _))) hnameFails hname
  have hraises : plain.Raises store plain.maxDepth form (.empty (.plain "user")) (undefinedAt none)
      [⟨throwUndefined, true⟩, ⟨form, true⟩] (undefinedAt (some 5)) :=
    .part (plain_keeps _ _) (.elem (.tail _ (.head _))) hthrowFails hthrow
  have hrun : (plain.analyzeIn form (.empty (.plain "user"))).run.run store =
      (.error (undefinedAt (some 5)), store) := rfl
  obtain ⟨-, hlocation, -⟩ := location_of_analyzeIn hrun
  obtain ⟨-, -, -, -, hnearest⟩ := hlocation _ _ hraises
  exact ⟨form, store, rfl, hrun, hraises, hnearest (by simp)⟩

def undefinedMethod : Form := .list [.vector [] [], .sym "undefined"] (firstLine 6)

/-- The method is the nearest list and has a location, but the error is located around it. -/
theorem location_of_method :
    ∃ form t,
      read "(fn* ([] undefined))" = .ok [form] ∧
      (plain.analyzeIn form (.empty (.plain "user"))).run.run ⟨.empty, .start⟩ =
        (.error (undefinedAt (some 1)), t) ∧
      plain.Raises t plain.maxDepth form (.empty (.plain "user")) (undefinedAt none)
        [⟨undefinedMethod, false⟩, ⟨form, true⟩] (undefinedAt (some 1)) ∧
      Enclosure.nearest? [⟨undefinedMethod, false⟩, ⟨form, true⟩] =
        (undefinedAt (some 6)).location := by
  let form : Form := .list [.sym "fn*", undefinedMethod] (firstLine 1)
  let store : Store := ⟨.empty, NameSupply.start.advance⟩
  let inner : Env := (Env.empty (.plain "user")).withContext .ret
  have hname := plain_raises_undefined 254 (inner.withLoop (NameSupply.start.peek "loop_") 0) store
  have hnameFails : plain.FailsWith 255 (.sym "undefined")
      (inner.withLoop (NameSupply.start.peek "loop_") 0) (undefinedAt none) store :=
    ⟨{ store with view := .empty, depth := 1 }, _, rfl, rfl, rfl⟩
  have hpart : form.Part [undefinedMethod] (.sym "undefined") :=
    .inner (c := undefinedMethod) (.method rfl (.tail _ (.head _))) (.elem (.tail _ (.head _)))
  have hraises : plain.Raises store plain.maxDepth form (.empty (.plain "user")) (undefinedAt none)
      [⟨undefinedMethod, false⟩, ⟨form, true⟩] (undefinedAt (some 1)) :=
    .part (plain_keeps _ _) hpart hnameFails hname
  exact ⟨form, store, rfl, rfl, hraises, rfl⟩

end Analyzer

end LispFront
