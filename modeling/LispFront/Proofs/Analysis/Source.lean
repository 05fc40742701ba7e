import LispFront.Proofs.Analysis.Counter
import LispFront.Proofs.Analysis.Relational.Equality
import LispFront.Proofs.Directory.Source
import LispFront.Proofs.Tree.Equality

/-!
# Where a form was read does not matter

Metadata is looked at in many places: where it is evaluated, where it is kept as a constant or as
the metadata of a call or a var, where it documents a definition. None of these places sees the keys
that say where a form was read. So a form and a relocated one are analyzed alike, as long as the
expander does not look at these keys either.
-/

namespace LispFront

open AnalyzerM Correspondence
open List (Forall₂)

/-! ## What definitions make of metadata -/

theorem Form.Relocated.unquote {f f' : Form} (h : f.Relocated f') :
    (unquote f).Relocated (LispFront.unquote f') := by
  cases h.matches_of with
  | list m m' hes =>
    rcases hes with _ | ⟨hhead, _ | ⟨hquoted, _ | ⟨_, _⟩⟩⟩
    · exact h
    · cases hhead.matches_of <;> exact h
    · cases hhead.matches_of with
      | symbol s m m' =>
        unfold LispFront.unquote
        dsimp only
        split
        · exact hquoted
        · exact h
      | _ => exact h
    · cases hhead.matches_of <;> exact h
  | _ => exact h

namespace FormMap.Relocated

variable {m m' : FormMap} (h : m.Relocated m')
include h

theorem overArglists {g : Form → Form} (hg : ∀ f f', f.Relocated f' → (g f).Relocated (g f')) :
    FormMap.Relocated
      (match m.find? (.key "arglists") with
        | some f => m.insert (.key "arglists") (g f)
        | none => m)
      (match m'.find? (.key "arglists") with
        | some f => m'.insert (.key "arglists") (g f)
        | none => m') := by
  have hk : "arglists" ∉ sourceKeys := by decide
  have hfound := h.find? hk
  generalize m.find? (.key "arglists") = o at hfound ⊢
  generalize m'.find? (.key "arglists") = o' at hfound ⊢
  cases hfound with
  | none => exact h
  | some hf => exact h.insert hk (hg _ _ hf)

theorem doc_eq :
    (match m.find? (.key "doc") with
      | some (.string doc) => some doc
      | _ => none) =
    (match m'.find? (.key "doc") with
      | some (.string doc) => some doc
      | _ => none) := by
  have hfound := h.find? (k := "doc") (by decide)
  generalize m.find? (.key "doc") = o at hfound ⊢
  generalize m'.find? (.key "doc") = o' at hfound ⊢
  cases hfound with
  | none => rfl
  | some hf => cases hf.matches_of <;> rfl

theorem withDoc (doc : Option String) :
    FormMap.Relocated
      (match doc with
        | some doc => m.insert (.key "doc") (.string doc)
        | none => m)
      (match doc with
        | some doc => m'.insert (.key "doc") (.string doc)
        | none => m') := by
  cases doc with
  | none => exact h
  | some doc => exact h.insert (by decide) (.refl (.string doc))

end FormMap.Relocated

namespace Definition

variable {x : Symbol} {m m' : FormMap} (doc : Option String) (init init' : Option Form)
  (h : m.Relocated m')
include h

theorem ofParts_doc : (ofParts x m doc init).doc = (ofParts x m' doc init').doc := by
  have harglists := h.overArglists fun _ _ hf => hf.unquote
  exact congrArg doc.or harglists.doc_eq

theorem ofParts_metadata :
    (ofParts x m doc init).metadata.Relocated (ofParts x m' doc init').metadata := by
  have harglists := h.overArglists fun _ _ hf => hf.unquote
  have hdoc := ofParts_doc (x := x) doc init init' h
  unfold ofParts at hdoc ⊢
  dsimp only at hdoc ⊢
  rw [hdoc]
  exact harglists.withDoc _

omit h in
theorem metadataExpr_relocated {d d' : Definition} (h : d.metadata.Relocated d'.metadata) :
    (Form.map d.metadataExpr []).Relocated (.map d'.metadataExpr []) := by
  refine (h.overArglists fun f f' hf => ?_).toForm
  exact .list (.cons (.sym "quote") (.cons hf .nil))

end Definition

/-! ## The correspondence -/

structure AnalysisError.SameCause (e e' : AnalysisError) : Prop where
  fault : e.fault.Like (fun f f' => f == f') e'.fault
  form : e.form == e'.form

structure Store.SameButSource (s t : Store) : Prop where
  directory : s.directory.SameButSource t.directory
  names : s.names = t.names

structure Analysis.SameButSource (s t : Analysis) : Prop where
  store : s.toStore.SameButSource t.toStore
  view : s.view.SameButSource t.view

def relocation : Correspondence where
  form := Form.Relocated
  node n n' := n == n'
  var := Var.SameButSource
  loopId := Eq
  store := Analysis.SameButSource
  error := AnalysisError.SameCause
  escapes _ := False

theorem relocation_equates : relocation.Equates where
  form hf := hf.same.beq
  node hn := hn
  var hv := hv.id
  loopId hid := hid

theorem intern_relocated {s t : Analysis} (h : s.SameButSource t) (ns name : Symbol)
    {m m' : FormMap} (hm : m.SameButSource m') :
    relocation.Interned s t (s.directory.intern ns name m) (t.directory.intern ns name m') := by
  have hn := h.store.directory.find? ns
  rw [Directory.intern_eq, Directory.intern_eq]
  split
  · exact .error _
  · generalize s.directory.find? ns = n at hn ⊢
    generalize t.directory.find? ns = n' at hn ⊢
    cases hn with
    | none => exact .error _
    | @some n n' hn =>
      have hv : Var.SameButSource ⟨⟨n.name, name⟩, m⟩ ⟨⟨n'.name, name⟩, m'⟩ :=
        ⟨congrArg (VarName.mk · name) hn.name, hm⟩
      have hd : (s.directory.put n.name (n.addVar name ⟨⟨n.name, name⟩, m⟩)).SameButSource
          (t.directory.put n'.name (n'.addVar name ⟨⟨n'.name, name⟩, m'⟩)) := by
        rw [← hn.name]
        exact h.store.directory.put (hn.addVar (hn.name ▸ hv) name) n.name
      exact .ok hv ⟨⟨hd, h.store.names⟩, hd⟩

theorem relocation_agrees : relocation.Agrees where
  resolve ns x hst := hst.view.resolve? ns x
  isClass x hst := hst.view.isClass x

theorem relocation_lawful : relocation.Lawful where
  matches_of := Form.Relocated.matches_of
  beq_eq hf hg := hf.same.beq_eq hg.same
  nil := .nil
  sym := .sym
  list := .list
  semanticMetadata hf := hf.metadata.toForm
  once hf := by
    have honce := hf.metadata.find? (k := "once") (by decide)
    unfold Form.metadataValue?
    generalize FormMap.find? _ (.key "once") = o at honce ⊢
    generalize FormMap.find? _ (.key "once") = o' at honce ⊢
    cases honce with
    | none => rfl
    | some hv => exact hv.same.beq_eq (g := .bool true) rfl
  doc doc init init' hx := Definition.ofParts_doc doc init init' hx.metadata
  metadata doc init init' hx := (Definition.ofParts_metadata doc init init' hx.metadata).symbol _
  metadataExpr doc init init' hx :=
    Definition.metadataExpr_relocated (Definition.ofParts_metadata doc init init' hx.metadata)
  resolve := relocation_agrees.resolved
  intern := by
    intro s t ns name x m m' hst hx
    exact intern_relocated hst ns name hx.metadata.same
  loopId hst := congrArg (NameSupply.peek · "loop_") hst.store.names
  advance hst := ⟨⟨hst.store.directory, congrArg NameSupply.advance hst.store.names⟩, hst.view⟩
  node := node_beq relocation_equates
  expandedFrom hn _ := (Node.beq_addExpandedFrom _ _ _ _).trans hn
  error hx hf := ⟨hx.mono fun _ _ h => h.same.beq, hf.same.beq⟩
  within he _ := ⟨he.fault, he.form⟩
  escapes_within _ he := he

/-! ## Analyses -/

/-- The expander does not look at where forms were read. -/
def Analyzer.IgnoresSource (a : Analyzer) : Prop :=
  ∀ f f' e e', f.Relocated f' → e == e' →
    match a.expand f e, a.expand f' e' with
    | .ok g, .ok g' => g.Relocated g'
    | .error x, .error x' => x.SameCause x'
    | _, _ => False

variable {a : Analyzer}

theorem ignoresSource_of_noop (h : ∀ f e, a.expand f e = .ok f) : a.IgnoresSource := by
  intro f f' e e' hf _
  rw [h, h]
  exact hf

theorem expands_of_ignoresSource (h : a.IgnoresSource) : relocation.Expands a a := by
  intro f f' e e' hf he
  have hexpand := h f f' e e' hf (env_beq relocation_equates he)
  unfold Analyzer.expansion
  generalize a.expand f e = r at hexpand ⊢
  generalize a.expand f' e' = r' at hexpand ⊢
  cases r with
  | error x =>
    cases r' with
    | error x' => exact relates_throw hexpand
    | ok g' => cases hexpand
  | ok g =>
    cases r' with
    | error x' => cases hexpand
    | ok g' => exact relates_pure hexpand

theorem analyzeUpTo_relocated (h : a.IgnoresSource) (levels : Nat) :
    relocation.Recurses (a.analyzeUpTo levels) (a.analyzeUpTo levels) := by
  induction levels with
  | zero => exact fun f f' e e' hf _ => relates_fail_same relocation_lawful hf
  | succ levels ih =>
    exact fun f f' e e' hf he => relates_analyzeLevel relocation_lawful ih hf he
      (expands_of_ignoresSource h) (looksUp_of_checkClasses relocation_lawful relocation_agrees rfl)

/-- A form and a relocated one give equal trees or fail for the same cause, and leave the same
behind. -/
theorem analyzeIn_relocated (ha : a.IgnoresSource) {f f' : Form} (hf : f.Relocated f') (env : Env)
    (s : Store) :
    match (a.analyzeIn f env).run.run s, (a.analyzeIn f' env).run.run s with
    | (.ok n, t), (.ok n', t') => n == n' ∧ t.SameButSource t'
    | (.error e, t), (.error e', t') => e.SameCause e' ∧ t.SameButSource t'
    | _, _ => False := by
  have he : env.Like relocation env := .refl Node.beq_refl (fun _ => rfl) env
  have h := analyzeUpTo_relocated ha a.maxDepth f f' env env hf he (.start s) (.start s)
    ⟨⟨.refl _, rfl⟩, .refl _⟩
  rw [Analyzer.run_analyzeIn, Analyzer.run_analyzeIn]
  generalize (a.analyzeUpTo a.maxDepth f env).run.run (.start s) = r at h ⊢
  generalize (a.analyzeUpTo a.maxDepth f' env).run.run (.start s) = r' at h ⊢
  cases h with
  | ok hn ht => exact ⟨hn, ht.store⟩
  | error he ht => exact ⟨he, ht.store⟩
  | escape he => cases he

theorem relocated_def :
    (Form.call "def" [.symbol (.plain "x") [(.key "line", .number 3), (.key "tag", .nil)], .nil])
      |>.Relocated (.call "def" [.symbol (.plain "x") [(.key "tag", .nil)], .nil]) := by
  have hname : (Form.symbol (.plain "x") [(.key "line", .number 3), (.key "tag", .nil)]).Relocated
      (.symbol (.plain "x") [(.key "tag", .nil)]) := by
    refine ⟨.symbol _ (List.pairwise_pair.mpr rfl) ?_ ?_,
      .symbol _ (List.pairwise_singleton _ _) ?_ ?_, rfl⟩
    · simp [Form.key, Form.WellFormed.keyword]
    · simp [Form.WellFormed.number, Form.WellFormed.nil]
    · simp [Form.key, Form.WellFormed.keyword]
    · simp [Form.WellFormed.nil]
  exact .list (.cons (.sym "def") (.cons hname (.cons .nil .nil)))

theorem analyzeIn_relocated_def :
    ∃ n n' t t',
      (Analyzer.analyzeIn { home := .plain "user" }
        (.call "def" [.symbol (.plain "x") [(.key "line", .number 3), (.key "tag", .nil)], .nil])
        (.empty (.plain "user"))).run.run ⟨Directory.empty.create (.plain "user"), .start⟩ =
          (.ok n, t) ∧
      (Analyzer.analyzeIn { home := .plain "user" }
        (.call "def" [.symbol (.plain "x") [(.key "tag", .nil)], .nil])
        (.empty (.plain "user"))).run.run ⟨Directory.empty.create (.plain "user"), .start⟩ =
          (.ok n', t') ∧
      n == n' ∧ t.SameButSource t' := by
  have h := analyzeIn_relocated (a := { home := .plain "user" })
    (ignoresSource_of_noop fun _ _ => rfl) relocated_def (.empty (.plain "user"))
    ⟨Directory.empty.create (.plain "user"), .start⟩
  obtain ⟨n, t, hn⟩ : ∃ n t, (Analyzer.analyzeIn { home := .plain "user" }
      (.call "def" [.symbol (.plain "x") [(.key "line", .number 3), (.key "tag", .nil)], .nil])
      (.empty (.plain "user"))).run.run ⟨Directory.empty.create (.plain "user"), .start⟩ =
        (.ok n, t) := ⟨_, _, rfl⟩
  obtain ⟨n', t', hn'⟩ : ∃ n t, (Analyzer.analyzeIn { home := .plain "user" }
      (.call "def" [.symbol (.plain "x") [(.key "tag", .nil)], .nil])
      (.empty (.plain "user"))).run.run ⟨Directory.empty.create (.plain "user"), .start⟩ =
        (.ok n, t) := ⟨_, _, rfl⟩
  rw [hn, hn'] at h
  exact ⟨n, n', t, t', hn, hn', h⟩

end LispFront
