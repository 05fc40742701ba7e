import LispFront.Proofs.Analysis.Counter
import LispFront.Proofs.Analysis.Relational.Shape
import LispFront.Proofs.Directory.WellFormed
import LispFront.Proofs.Tree.WellFormed

/-!
# What is analyzed stays well-formed

An analysis drops and inserts entries of metadata but never writes a map down by itself. So from a
well-formed form, a well-formed environment and a directory of such metadata come a tree and a
directory that are well-formed again, unless the expander breaks this. The proof compares an
analysis with itself: what corresponds is equal and well-formed.
-/

namespace LispFront

open AnalyzerM Correspondence
open List (Forall₂)

/-! ## Definitions -/

theorem Form.WellFormed.unquote {f : Form} (h : f.WellFormed) :
    (LispFront.unquote f).WellFormed := by
  unfold LispFront.unquote
  split
  · split
    · cases h with
      | list hes => exact hes _ (by simp)
    · exact h
  · exact h

namespace FormMap.WellFormed

variable {m : FormMap} (h : m.WellFormed)
include h

theorem overArglists {g : Form → Form} (hg : ∀ f, f.WellFormed → (g f).WellFormed) :
    FormMap.WellFormed
      (match m.find? (.key "arglists") with
        | some f => m.insert (.key "arglists") (g f)
        | none => m) := by
  split
  · rename_i f hf
    exact h.insert (.keyword _) (hg f (h.find? hf))
  · exact h

theorem ofParts (x : Symbol) (doc : Option String) (init : Option Form) :
    (Definition.ofParts x m doc init).metadata.WellFormed := by
  have harglists := h.overArglists fun f => Form.WellFormed.unquote
  unfold Definition.ofParts
  dsimp only
  split
  · exact harglists.insert (.keyword _) (.string _)
  · exact harglists

omit h in
theorem metadataExpr {d : Definition} (h : d.metadata.WellFormed) : d.metadataExpr.WellFormed :=
  (h.overArglists fun f hf => .call (by simpa using hf)).withoutSource

end FormMap.WellFormed

/-! ## The correspondence -/

/-- Nothing corresponds but to itself, and only if it is well-formed. -/
def wellFormedness : Correspondence where
  form f f' := f.WellFormed ∧ f = f'
  node n n' := n.WellFormed ∧ n = n'
  var v v' := v.metadata.WellFormed ∧ v = v'
  loopId := Eq
  store s t := (s.directory.WellFormed ∧ s.view.WellFormed) ∧ s = t
  error e e' := e.form.WellFormed ∧ e = e'
  escapes _ := False

theorem wellFormedness_refines : wellFormedness.Refines (exact fun _ => False) :=
  ⟨And.right, And.right, And.right, id⟩

theorem related_of_wellFormed {es : List Form} (h : ∀ e ∈ es, e.WellFormed) :
    Forall₂ wellFormedness.form es es :=
  List.forall₂_same.mpr fun e he => ⟨h e he, rfl⟩

theorem matches_of_wellFormed {f : Form} (h : f.WellFormed) : f.Matches wellFormedness.form f := by
  cases h with
  | nil => exact .nil
  | bool b => exact .bool b
  | number n => exact .number n
  | string s => exact .string s
  | char c => exact .char c
  | keyword k => exact .keyword k
  | @symbol s m => exact .symbol s m m
  | regex source => exact .regex source
  | @list es m hes => exact .list m m (related_of_wellFormed hes)
  | @vector es m hes => exact .vector m m (related_of_wellFormed hes)
  | @map es m _ hk hv =>
    exact .map m m (List.forall₂_same.mpr fun e he => ⟨⟨hk e he, rfl⟩, ⟨hv e he, rfl⟩⟩)
  | @set es m _ hes => exact .set m m (related_of_wellFormed hes)
  | var v => exact .var v

theorem wellFormedness_readsAlike : ReadsAlike wellFormedness.form where
  matches_of := by
    rintro f _ ⟨hf, rfl⟩
    exact matches_of_wellFormed hf
  beq_eq hf hg := readsAlike_eq.beq_eq hf.2 hg.2
  nil := ⟨.nil, rfl⟩
  sym name := ⟨.sym name, rfl⟩
  list hes := by
    obtain ⟨hwell, heq⟩ := (List.forall₂_and_left _ _).mp hes
    exact ⟨.listOf hwell, readsAlike_eq.list heq⟩
  semanticMetadata hf :=
    ⟨(FormMap.WellFormed.of_metadata hf.1).withoutSource.toForm,
      readsAlike_eq.semanticMetadata hf.2⟩
  once hf := readsAlike_eq.once hf.2
  doc doc init init' hf := readsAlike_eq.doc doc init init' hf.2
  metadata {x _ _} doc init init' hf :=
    ⟨((FormMap.WellFormed.of_metadata hf.1).ofParts x doc init).symbol x,
      readsAlike_eq.metadata doc init init' hf.2⟩
  metadataExpr {x _ _} doc init init' hf :=
    ⟨((FormMap.WellFormed.of_metadata hf.1).ofParts x doc init).metadataExpr.toForm,
      readsAlike_eq.metadataExpr doc init init' hf.2⟩

theorem wellFormedness_agrees : wellFormedness.Agrees where
  resolve := by
    rintro s _ ns x ⟨⟨-, hs⟩, rfl⟩
    cases hv : s.view.resolve? ns x with
    | none => exact .none
    | some v => exact .some ⟨hs.resolve? hv, rfl⟩
  isClass := by
    rintro s _ x ⟨-, rfl⟩
    rfl

/-! ## Nodes -/

section Nodes

theorem wellFormed_of_init {b b' : Binding} (h : b.Like wellFormedness b') :
    ∀ m ∈ b.init, m.WellFormed := by
  intro m hm
  obtain ⟨_, hm, -⟩ := exists_of_related_option h.init hm
  exact hm

theorem wellFormed_of_option {b b' : Option Binding}
    (h : Option.Rel (Binding.Like wellFormedness) b b') :
    ∀ c ∈ b.toList, ∀ m ∈ c.init, m.WellFormed := by
  intro c hc
  obtain ⟨_, hc⟩ := exists_of_related_option h (Option.mem_toList.mp hc)
  exact wellFormed_of_init hc

theorem wellFormed_of_envLike {e e' : Env} (h : e.Like wellFormedness e') : e.WellFormed := by
  have hlocals : Forall₂ (fun b b' => (∀ m ∈ b.init, Node.WellFormed m) ∧ True)
      e.locals e'.locals :=
    h.locals.imp fun _ _ hb => ⟨wellFormed_of_init hb, trivial⟩
  intro b hb
  rcases List.mem_append.mp hb with hb | hb
  · exact ((List.forall₂_and_left _ _).mp hlocals).1 b hb
  · exact wellFormed_of_option h.self b hb

theorem envLike_of_wellFormed {e : Env} (h : e.WellFormed) : e.Like wellFormedness e := by
  have hbinding : ∀ b ∈ e.bindings, b.Like wellFormedness b := by
    intro b hb
    refine ⟨rfl, rfl, ?_, rfl, rfl, rfl⟩
    cases hinit : b.init with
    | none => exact .none
    | some n => exact .some ⟨h b hb n hinit, rfl⟩
  refine ⟨?_, rfl, rfl, related_option_refl (fun _ => rfl) _, rfl, rfl, rfl, rfl, ?_⟩
  · exact List.forall₂_same.mpr fun b hb => hbinding b (List.mem_append_left _ hb)
  · cases hself : e.self with
    | none => exact .none
    | some b => exact .some (hbinding b (List.mem_append_right _ (by simp [hself])))

variable {op op' : Op} (h : op.Like wellFormedness op')
include h

theorem wellFormed_of_forms : ∀ f ∈ op.forms, f.WellFormed := by
  cases h with
  | const hval _ => simpa [Op.forms] using hval.1
  | varRef hv | theVar hv | define _ hv _ _ => simpa [Op.forms] using hv.1.toForm
  | invoke _ _ hm => simpa [Op.forms] using hm.1
  | case _ _ _ _ _ _ _ hskip =>
    cases hskip with
    | none => simp [Op.forms]
    | some hf => simpa [Op.forms] using hf.1
  | _ => simp [Op.forms]

theorem wellFormed_of_bindings : ∀ b ∈ op.bindings, ∀ m ∈ b.init, m.WellFormed := by
  cases h with
  | localRef hb =>
    intro c hc
    obtain rfl := List.mem_singleton.mp hc
    exact wellFormed_of_init hb
  | method _ _ _ _ _ hself => exact wellFormed_of_option hself
  | _ => simp [Op.bindings]

theorem wellFormed_of_children : ∀ c ∈ op.children, ∀ m ∈ c.2.nodes, m.WellFormed := by
  have hslots : Forall₂ (fun c c' => (∀ m ∈ c.2.nodes, Node.WellFormed m) ∧ True)
      op.children op'.children :=
    h.children.imp fun c c' hc => ⟨((List.forall₂_and_left _ _).mp hc.2).1, trivial⟩
  exact ((List.forall₂_and_left _ _).mp hslots).1

end Nodes

theorem wellFormedness_lawful : wellFormedness.Lawful where
  toReadsAlike := wellFormedness_readsAlike
  resolve := wellFormedness_agrees.resolved
  intern := by
    rintro s _ ns name x m _ ⟨⟨hs, -⟩, rfl⟩ ⟨hx, ⟨⟩⟩
    cases hv : s.directory.intern ns name m with
    | error e => exact .error e
    | ok r =>
      obtain ⟨hm, hd⟩ := hs.intern (.of_metadata hx) hv
      exact .ok ⟨hm, rfl⟩ ⟨⟨hd, hd⟩, rfl⟩
  loopId := by
    rintro s _ ⟨-, rfl⟩
    rfl
  advance := by
    rintro s _ ⟨hs, rfl⟩
    exact ⟨hs, rfl⟩
  node := by
    rintro op op' f _ e e' hop ⟨hf, rfl⟩ he
    refine ⟨.intro (fun g hg => ?_) (fun m hm => ?_) (fun b hb => ?_), ?_⟩
    · rcases List.mem_cons.mp hg with rfl | hg
      · exact hf
      · exact wellFormed_of_forms hop g hg
    · obtain ⟨c, hc, hm⟩ := List.mem_flatMap.mp hm
      exact wellFormed_of_children hop c hc m hm
    · rcases List.mem_append.mp hb with hb | hb
      · exact wellFormed_of_bindings hop b hb
      · exact wellFormed_of_envLike he b hb
    · rw [eq_of_opLike (hop.mono wellFormedness_refines),
        eq_of_envLike (he.mono wellFormedness_refines)]
  expandedFrom := by
    rintro n _ f _ ⟨hn, rfl⟩ ⟨hf, rfl⟩
    exact ⟨hn.addExpandedFrom hf, rfl⟩
  error := by
    rintro x x' f _ hx ⟨hf, rfl⟩
    exact ⟨hf, by rw [eq_of_faultLike (hx.mono fun _ _ => And.right)]⟩
  within := by
    rintro e _ f _ ⟨he, rfl⟩ ⟨-, rfl⟩
    exact ⟨he, rfl⟩
  escapes_within _ he := he

/-! ## Analyses -/

/-- The expander makes well-formed forms of well-formed forms, and blames no others. -/
def Analyzer.KeepsWellFormed (a : Analyzer) : Prop :=
  ∀ f e, f.WellFormed → e.WellFormed →
    match a.expand f e with
    | .ok g => g.WellFormed
    | .error x => x.form.WellFormed

theorem keepsWellFormed_of_noop {a : Analyzer} (h : ∀ f e, a.expand f e = .ok f) :
    a.KeepsWellFormed := by
  intro f e hf _
  rw [h]
  exact hf

variable {a : Analyzer} (ha : a.KeepsWellFormed)
include ha

theorem expands_of_keepsWellFormed : wellFormedness.Expands a a := by
  rintro f _ e e' ⟨hf, rfl⟩ he
  have hexpand := ha f e hf (wellFormed_of_envLike he)
  rw [← eq_of_envLike (he.mono wellFormedness_refines)]
  unfold Analyzer.expansion
  split <;> rename_i hg
  · rw [hg] at hexpand
    exact relates_pure ⟨hexpand, rfl⟩
  · rw [hg] at hexpand
    exact relates_throw ⟨hexpand, rfl⟩

theorem analyzeUpTo_wellFormed (levels : Nat) :
    wellFormedness.Recurses (a.analyzeUpTo levels) (a.analyzeUpTo levels) := by
  have hC := wellFormedness_lawful
  induction levels with
  | zero => exact fun f f' e e' hf _ => relates_fail_same hC hf
  | succ levels ih =>
    exact fun f f' e e' hf he => relates_analyzeLevel hC ih hf he (expands_of_keepsWellFormed ha)
      (looksUp_of_checkClasses hC wellFormedness_agrees rfl)

/-- The tree, or the form to blame, and the directory afterwards are well-formed if what the
analysis started from was. -/
theorem wellFormed_of_analyzeIn {form : Form} {env : Env} {s : Store} (hform : form.WellFormed)
    (henv : env.WellFormed) (hs : s.directory.WellFormed) :
    (match ((a.analyzeIn form env).run.run s).1 with
      | .ok n => n.WellFormed
      | .error e => e.form.WellFormed) ∧
      ((a.analyzeIn form env).run.run s).2.directory.WellFormed := by
  have h := analyzeUpTo_wellFormed ha a.maxDepth form form env env ⟨hform, rfl⟩
    (envLike_of_wellFormed henv) (.start s) (.start s) ⟨⟨hs, hs⟩, rfl⟩
  rw [Analyzer.run_analyzeIn]
  generalize (a.analyzeUpTo a.maxDepth form env).run.run (.start s) = r at h ⊢
  cases h with
  | ok hn ht => exact ⟨hn.1, ht.1.1⟩
  | error he ht => exact ⟨he.1, ht.1.1⟩
  | escape he => exact he.elim

end LispFront
