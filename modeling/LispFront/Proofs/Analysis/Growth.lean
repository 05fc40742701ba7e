import LispFront.Proofs.Analysis.Counter
import LispFront.Proofs.Analysis.Relational.Shape
import LispFront.Proofs.Directory.Growth

/-!
# Analyses in a directory that has grown

What can be analyzed in a directory can be analyzed in what it has grown to. Names keep their vars,
and definitions made on the way are made in both directories. Only a name that no var had may have
one now: then its node refers to the var, where it referred to a class or to a member of one.
-/

namespace LispFront

open AnalyzerM Correspondence

/-- The states of an analysis and of one in a directory that has grown, both with a current
snapshot. -/
structure Analysis.GrownTo (s t : Analysis) : Prop where
  current : s.Current
  current' : t.Current
  named : s.directory.Named
  consistent : t.directory.Consistent
  directory : s.directory.Grows t.directory
  names : s.names = t.names

/-- The second analysis has the grown directory and need not fail where the first one does. -/
def growing (R : Node → Node → Prop) : Correspondence where
  form := Eq
  node := R
  var v v' := v.id = v'.id
  loopId := Eq
  store := Analysis.GrownTo
  error _ _ := True
  escapes _ := True

def Op.IsUnresolved (s : Symbol) (op : Op) : Prop :=
  op = .classRef s ∨ ∃ cls, s.ns = some cls ∧ op = .hostForm (.plain cls) (.plain s.name)

/-- The trees are the same, up to names that had no var and have one in the second tree. `R` is the
part of this relation that relates the nodes below the two nodes. -/
inductive Node.Grown : Node → Node → Prop
  | same (n : Node) : Grown n n
  | alike {R : Node → Node → Prop} {op op' : Op} {e e' : Env} (form : Form) (raw : List Form) :
      (∀ n n', R n n' → Grown n n') → op.Like (growing R) op' → e.Like (growing R) e' →
      Grown ⟨op, form, e, raw⟩ ⟨op', form, e', raw⟩
  | resolved {R : Node → Node → Prop} {op : Op} {s : Symbol} {v : Var} {e e' : Env} (m : FormMap)
      (raw : List Form) :
      (∀ n n', R n n' → Grown n n') → op.IsUnresolved s → v.id.name = .plain s.name →
      e.Like (growing R) e' →
      Grown ⟨op, .symbol s m, e, raw⟩ ⟨.varRef v, .symbol s m, e', raw⟩

theorem Node.Grown.addExpandedFrom {n n' : Node} (h : n.Grown n') (f : Form) :
    (n.addExpandedFrom f).Grown (n'.addExpandedFrom f) := by
  cases h with
  | same => exact .same _
  | alike form raw hR hop he => exact .alike form (f :: raw) hR hop he
  | resolved m raw hR hop hv he => exact .resolved m (f :: raw) hR hop hv he

/-- The nodes have the same form and the same operator, unless the second refers to a var where the
first referred to a class or to a member of one by the same symbol. -/
structure Node.Counterpart (n n' : Node) : Prop where
  form : n.form = n'.form
  op : n.op.name = n'.op.name ∨ ∃ s m v, n.form = .symbol s m ∧ n.op.IsUnresolved s ∧
    n'.op = .varRef v ∧ v.id.name = .plain s.name

namespace Node.Grown

variable {n n' : Node} (h : n.Grown n')
include h

theorem counterpart : n.Counterpart n' := by
  cases h with
  | same => exact ⟨rfl, .inl rfl⟩
  | alike _ _ _ hop _ => exact ⟨rfl, .inl hop.name_eq⟩
  | resolved m _ _ hop hv _ => exact ⟨rfl, .inr ⟨_, m, _, rfl, hop, rfl, hv⟩⟩

theorem slotsAlike : SlotsAlike Node.Grown n.children n'.children := by
  cases h with
  | same => exact .refl .same _
  | alike _ _ hR hop _ => exact hop.children.mono hR
  | resolved _ _ _ hop _ _ =>
    rcases hop with rfl | ⟨cls, -, rfl⟩
    · exact .nil
    · exact .nil

theorem of_at {places : List (Slot × Nat)} {m : Node} (hm : n.At places m) :
    ∃ m', n'.At places m' ∧ m.Counterpart m' := by
  obtain ⟨m', hm', hgrown⟩ := hm.alike (fun _ _ h => slotsAlike h) h
  exact ⟨m', hm', hgrown.counterpart⟩

theorem at_of {places : List (Slot × Nat)} {m' : Node} (hm : n'.At places m') :
    ∃ m, n.At places m ∧ m.Counterpart m' := by
  obtain ⟨m, hm, hgrown⟩ :=
    hm.alike (R := fun n' n => Node.Grown n n') (fun _ _ h => (slotsAlike h).flip) h
  exact ⟨m, hm, hgrown.counterpart⟩

end Node.Grown

section Laws

variable {e e' : Env}

theorem grown_of (form : Form) {op op' : Op} (hop : op.Like (growing Node.Grown) op')
    (he : e.Like (growing Node.Grown) e') : (Node.of op form e).Grown (.of op' form e') :=
  .alike form [] (fun _ _ h => h) hop he

theorem grown_of_unresolved {op : Op} {s : Symbol} (hop : op.IsUnresolved s) (form : Form)
    (he : e.Like (growing Node.Grown) e') : (Node.of op form e).Grown (.of op form e') := by
  rcases hop with rfl | ⟨cls, -, rfl⟩
  · exact grown_of form (.classRef s) he
  · exact grown_of form (.hostForm _ _) he

theorem grown_of_resolved {op : Op} {s : Symbol} (hop : op.IsUnresolved s) (m : FormMap) {v : Var}
    (hv : v.id.name = .plain s.name) (he : e.Like (growing Node.Grown) e') :
    (Node.of op (.symbol s m) e).Grown (.of (.varRef v) (.symbol s m) e') :=
  .resolved m [] (fun _ _ h => h) hop hv he

theorem growing_lawful : (growing Node.Grown).Lawful where
  toReadsAlike := readsAlike_eq
  resolve {s t} ns x hst := by
    rw [hst.current.view_eq, hst.current'.view_eq]
    cases hv : s.directory.resolve? ns x with
    | none => exact .escape _ fun _ _ => trivial
    | some v =>
      obtain ⟨v', hv', hid⟩ := hst.directory.resolve? hv
      rw [hv']
      exact .found hid.symm
  intern {s t} ns name x m m' hst hm := by
    cases hm
    rcases hv : s.directory.intern ns name m with e | ⟨v, d⟩
    · exact .escape _ fun _ => trivial
    · obtain ⟨d', hv', hgrows⟩ := hst.directory.intern hst.named hst.consistent.named hv
      rw [hv']
      exact .ok rfl ⟨rfl, rfl, hst.named.intern hv, Directory.consistent_of_intern hst.consistent hv',
        hgrows, hst.names⟩
  loopId hst := congrArg (fun names : NameSupply => names.peek "loop_") hst.names
  advance hst := { hst with names := congrArg NameSupply.advance hst.names }
  node hop hf he := by
    cases hf
    exact grown_of _ hop he
  expandedFrom hn hf := by
    cases hf
    exact hn.addExpandedFrom _
  error _ _ := trivial
  within _ _ := trivial
  escapes_within _ _ := trivial

end Laws

variable {a : Analyzer}

theorem looksUp_growing (a : Analyzer) : (growing Node.Grown).LooksUp a a := by
  intro s m _ e e' hf he
  cases hf
  have hlocal := he.local? s
  unfold Analyzer.analyzeName
  generalize e.local? s = b at hlocal ⊢
  generalize e'.local? s = b' at hlocal ⊢
  cases hlocal with
  | some hb => exact relates_pure (grown_of _ (.localRef hb.withoutInit) he)
  | none =>
    apply relates_bind relates_directory
    rintro _ _ ⟨t, t', hst, rfl, rfl⟩
    have hgrows : t.directory.Grows t'.directory := hst.directory
    have hfound {v : Var} (hv : t'.directory.resolve? e.ns s = some v) :
        v.id.name = .plain s.name := Directory.name_of_resolve? hst.consistent hv
    rw [hst.current.view_eq, hst.current'.view_eq]
    rw [← he.ns]
    cases hv : t.directory.resolve? e.ns s with
    | some v =>
      obtain ⟨v', hv', hid⟩ := hgrows.resolve? hv
      rw [hv']
      exact relates_pure (grown_of _ (.varRef hid.symm) he)
    | none =>
      cases hns : s.ns with
      | some cls =>
        have hop : (Op.hostForm (.plain cls) (.plain s.name)).IsUnresolved s := .inr ⟨cls, hns, rfl⟩
        cases hv' : t'.directory.resolve? e.ns s with
        | some v' => exact relates_pure (grown_of_resolved hop m (hfound hv') he)
        | none => exact relates_pure (grown_of_unresolved hop _ he)
      | none =>
        dsimp only
        by_cases hknown : (!a.checkClasses || t.directory.isClass s) = true
        · have hknown' : (!a.checkClasses || t'.directory.isClass s) = true := by
            rw [Bool.or_eq_true] at hknown ⊢
            exact hknown.imp_right (hgrows.classes s)
          rw [if_pos hknown]
          cases hv' : t'.directory.resolve? e.ns s with
          | some v' => exact relates_pure (grown_of_resolved (.inl rfl) m (hfound hv') he)
          | none =>
            dsimp only
            rw [if_pos hknown']
            exact relates_pure (grown_of_unresolved (.inl rfl) _ he)
        · rw [if_neg hknown]
          exact relates_escape trivial

section Runs

variable (hexpand : ∀ f e, a.expand f e = .ok f)
include hexpand

theorem expands_growing : (growing Node.Grown).Expands a a := by
  intro f f' e e' hf _
  unfold Analyzer.expansion
  rw [hexpand, hexpand]
  exact relates_pure hf

theorem recurses_growing (levels : Nat) :
    (growing Node.Grown).Recurses (a.analyzeUpTo levels) (a.analyzeUpTo levels) := by
  induction levels with
  | zero =>
    intro f f' e e' _ _
    exact relates_escape trivial
  | succ levels ih =>
    intro f f' e e' hf he
    exact relates_analyzeLevel growing_lawful ih hf he (expands_growing hexpand) (looksUp_growing a)

/-- Creating namespaces, interning vars and registering classes never makes an analysis fail. It
draws the same names and gives a tree with the same places, where the same nodes stand but for names
that have a var now. -/
theorem analyzeIn_grown {form : Form} {env : Env} {s t : Store} {n : Node}
    (hd : s.directory.Consistent) {calls : List Call} (hcalls : ∀ c ∈ calls, c.keepsAliases)
    (h : (a.analyzeIn form env).run.run s = (.ok n, t)) :
    ∃ n' t', (a.analyzeIn form env).run.run { s with directory := s.directory.run calls } =
        (.ok n', t') ∧
      t'.names = t.names ∧ n.Grown n' ∧
      ∀ places, (∀ m, n.At places m → ∃ m', n'.At places m' ∧ m.Counterpart m') ∧
        ∀ m', n'.At places m' → ∃ m, n.At places m ∧ m.Counterpart m' := by
  obtain ⟨hgrows, hconsistent⟩ := Directory.Grows.run hd hcalls
  have henv : env.Like (growing Node.Grown) env := .refl Node.Grown.same (fun _ => rfl) env
  have hruns := recurses_growing hexpand a.maxDepth form form env env rfl henv (.start s)
    (.start { s with directory := s.directory.run calls })
    ⟨rfl, rfl, hd.named, hconsistent, hgrows, rfl⟩
  rw [Analyzer.run_analyzeIn_iff.mp h] at hruns
  rw [Analyzer.run_analyzeIn]
  generalize (a.analyzeUpTo a.maxDepth form env).run.run
    (.start { s with directory := s.directory.run calls }) = r at hruns ⊢
  cases hruns with
  | ok hn ht =>
    exact ⟨_, _, rfl, ht.names.symm, hn,
      fun _ => ⟨fun _ hm => hn.of_at hm, fun _ hm => hn.at_of hm⟩⟩

end Runs

theorem analyzeIn_grown_names :
    ∃ n t n' t', (Analyzer.analyzeIn { home := .plain "user" }
        (.vector [.sym "Math", .symbol (.qualified "Math" "PI") []] [])
        (.empty (.plain "user"))).run.run
          ⟨Directory.empty.run [.create (.plain "user"), .registerClass (.plain "Math")], .start⟩ =
        (.ok n, t) ∧
      n.childNodes.map (·.op.name) = ["maybe-class", "maybe-host-form"] ∧
      (Analyzer.analyzeIn { home := .plain "user" }
        (.vector [.sym "Math", .symbol (.qualified "Math" "PI") []] [])
        (.empty (.plain "user"))).run.run
          ⟨(Directory.empty.run [.create (.plain "user"), .registerClass (.plain "Math")]).run
            [.intern (.plain "user") (.plain "Math") [], .create (.plain "Math"),
              .intern (.plain "Math") (.plain "PI") []], .start⟩ = (.ok n', t') ∧
      n'.childNodes.map (·.op.name) = ["var", "var"] ∧ t'.names = t.names ∧ n.Grown n' := by
  obtain ⟨n, t, h, hops⟩ : ∃ n t, (Analyzer.analyzeIn { home := .plain "user" }
      (.vector [.sym "Math", .symbol (.qualified "Math" "PI") []] [])
      (.empty (.plain "user"))).run.run
        ⟨Directory.empty.run [.create (.plain "user"), .registerClass (.plain "Math")], .start⟩ =
      (.ok n, t) ∧
      n.childNodes.map (·.op.name) = ["maybe-class", "maybe-host-form"] := ⟨_, _, rfl, rfl⟩
  have hd : (Directory.empty.run [.create (.plain "user"),
      .registerClass (.plain "Math")]).Consistent :=
    (Directory.Grows.run Directory.records_empty.consistent (by simp [Call.keepsAliases])).2
  have hcalls : ∀ c ∈ [.intern (.plain "user") (.plain "Math") [], .create (.plain "Math"),
      .intern (.plain "Math") (.plain "PI") []], Call.keepsAliases c := by simp [Call.keepsAliases]
  obtain ⟨n', t', h', hnames, hn, -⟩ := analyzeIn_grown (fun _ _ => rfl) hd hcalls h
  refine ⟨n, t, n', t', h, hops, h', ?_, hnames, hn⟩
  cases h'
  rfl

end LispFront
