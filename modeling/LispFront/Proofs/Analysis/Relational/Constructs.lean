import LispFront.Analysis.Branch
import LispFront.Analysis.Definition
import LispFront.Analysis.Exception
import LispFront.Analysis.Interop
import LispFront.Proofs.Analysis.Relational.Relates
import LispFront.Proofs.Related

/-!
# Constructs without binders side by side

From corresponding forms in corresponding environments a construct reads off corresponding parts, so
if the parts are analyzed alike, then so is the construct.
-/

namespace LispFront

open AnalyzerM Correspondence
open List (Forall₂)

variable {C : Correspondence}

namespace Correspondence.Lawful

variable (hC : C.Lawful) {f f' : Form} {m m' : FormMap} {e e' : Env}
include hC

theorem call (op : String) {args args' : List Form} (h : Forall₂ C.form args args') :
    C.form (.call op args) (.call op args') :=
  hC.list (.cons (hC.sym op) h)

theorem entries (h : C.form (.map m []) (.map m' [])) :
    Forall₂ (fun e e' => C.form e.1 e'.1 ∧ C.form e.2 e'.2) m m' := by
  cases hC.matches_of h with
  | map _ _ hes => exact hes

theorem isEmpty_eq (h : C.form (.map m []) (.map m' [])) : m.isEmpty = m'.isEmpty :=
  related_isEmpty (hC.entries h)

theorem isCallTo_eq (name : String) (hf : C.form f f') : f.isCallTo name = f'.isCallTo name := by
  cases hC.matches_of hf with
  | list m m' hes =>
    cases hes with
    | nil => rfl
    | cons hhead _ => cases hC.matches_of hhead <;> rfl
  | _ => rfl

theorem beq_key (k : String) (hf : C.form f f') : (f == .key k) = (f' == .key k) := by
  cases hC.matches_of hf <;> rfl

theorem metadataConstant (hm : C.form (.map m []) (.map m' [])) (he : e.Like C e') :
    Option.Rel C.node (metadataConstant? m e) (metadataConstant? m' e') := by
  unfold metadataConstant?
  rw [hC.isEmpty_eq hm]
  split
  · exact .none
  · exact .some (hC.node (.const hm .none) hm he)

theorem constant_built (hf : C.form f f') (he : e.Like C e') :
    C.Built f f' (constant f e) (constant f' e') := by
  have hkind : ConstKind.of f = ConstKind.of f' := by cases hC.matches_of hf <;> rfl
  unfold constant
  rw [hkind]
  have hm := hC.metadataConstant (hC.semanticMetadata hf) (he.withContext .expr)
  exact .of (.const hf hm) he

theorem constant (hf : C.form f f') (he : e.Like C e') : C.node (constant f e) (constant f' e') :=
  (hC.constant_built hf he).node hC hf

end Correspondence.Lawful

/-! What constructs read off their forms corresponds. -/

namespace Case

variable (hC : C.Lawful) {f f' : Form}
include hC

theorem related_number (argument : String) (hf : C.form f f') :
    C.Checked (· = ·) (number argument f) (number argument f') := by
  cases hC.matches_of hf with
  | number n => exact .ok rfl
  | _ => exact .error (.caseArgument _ _ hf)

theorem related_entries (hf : C.form f f') :
    C.Checked (Forall₂ fun e e' => C.form e.1 e'.1 ∧ C.form e.2 e'.2) (entries f) (entries f') := by
  cases hC.matches_of hf with
  | map _ _ hes => exact .ok hes
  | _ => exact .error (.caseArgument _ _ hf)

theorem related_switchKind (hf : C.form f f') :
    C.Checked (· = ·) (switchKind f) (switchKind f') := by
  unfold switchKind
  rw [hC.beq_key "compact" hf, hC.beq_key "sparse" hf]
  split
  · exact .ok rfl
  · split
    · exact .ok rfl
    · exact .error (.unknownSwitch hf)

theorem related_testKind (hf : C.form f f') : C.Checked (· = ·) (testKind f) (testKind f') := by
  unfold testKind
  rw [hC.beq_key "int" hf, hC.beq_key "hash-identity" hf, hC.beq_key "hash-equiv" hf]
  split
  · exact .ok rfl
  · split
    · exact .ok rfl
    · split
      · exact .ok rfl
      · exact .error (.unknownTest hf)

theorem related_pair (hf : C.form f f') :
    C.Checked (fun p p' => C.form p.1 p'.1 ∧ C.form p.2 p'.2) (pair f) (pair f') := by
  cases hC.matches_of hf with
  | vector _ _ hes =>
    rcases hes with _ | ⟨htest, _ | ⟨hbody, _ | ⟨_, _⟩⟩⟩
    · exact .error (.caseArgument _ _ hf)
    · exact .error (.caseArgument _ _ hf)
    · exact .ok ⟨htest, hbody⟩
    · exact .error (.caseArgument _ _ hf)
  | _ => exact .error (.caseArgument _ _ hf)

end Case

inductive Member.Like (C : Correspondence) : Member → Member → Prop
  | field (name : Symbol) : Like C (.field name) (.field name)
  | access (name : Symbol) : Like C (.access name) (.access name)
  | call (name : Symbol) {args args' : List Form} :
      Forall₂ C.form args args' → Like C (.call name args) (.call name args')

theorem Member.related_ofForms (hC : C.Lawful) {f f' : Form} {args args' : List Form}
    (hf : C.form f f') (hargs : Forall₂ C.form args args') :
    C.Checked (Member.Like C) (Member.ofForms f args) (Member.ofForms f' args') := by
  cases hC.matches_of hf with
  | symbol s m m' =>
    cases hargs with
    | nil =>
      unfold Member.ofForms
      dsimp only
      split
      · exact .error (.memberNotSymbol hf)
      · exact .ok (.field _)
      · exact .ok (.access _)
    | cons harg hrest => exact .ok (.call _ (.cons harg hrest))
  | list m m' hes =>
    cases hargs with
    | nil =>
      cases hes with
      | nil => exact .error (.memberNotSymbol hf)
      | cons hhead hrest =>
        cases hC.matches_of hhead with
        | symbol s m m' => exact .ok (.call _ hrest)
        | _ => exact .error (.memberNotSymbol hf)
    | cons harg hrest =>
      cases hes with
      | nil => exact .error (.memberNotSymbol hf)
      | cons hhead hrest =>
        cases hC.matches_of hhead <;> exact .error (.memberNotSymbol hf)
  | _ => exact .error (.memberNotSymbol hf)

structure Definition.Like (C : Correspondence) (d d' : Definition) : Prop where
  name : d.name = d'.name
  metadata : ∃ x, C.form (.symbol x d.metadata) (.symbol x d'.metadata)
  metadataExpr : C.form (.map d.metadataExpr []) (.map d'.metadataExpr [])
  doc : d.doc = d'.doc
  init : Option.Rel C.form d.init d'.init

structure TryClauses.Like (C : Correspondence) (c c' : TryClauses) : Prop where
  body : Forall₂ C.form c.body c'.body
  catches : Forall₂ C.form c.catches c'.catches
  finallies : Forall₂ C.form c.finallies c'.finallies
  strays : Forall₂ C.form c.strays c'.strays

theorem TryClauses.related_split (hC : C.Lawful) {args args' : List Form}
    (hargs : Forall₂ C.form args args') :
    (TryClauses.split args).Like C (TryClauses.split args') := by
  have hcatch := fun f f' (hf : C.form f f') => hC.isCallTo_eq "catch" hf
  have hfinally := fun f f' (hf : C.form f f') => hC.isCallTo_eq "finally" hf
  have hclause : ∀ f f', C.form f f' → (!isClause f) = (!isClause f') := fun f f' hf => by
    unfold isClause
    rw [hcatch f f' hf, hfinally f f' hf]
  have hclauses := related_dropWhile hclause hargs
  have hrest := related_dropWhile hcatch hclauses
  exact {
    body := related_takeWhile hclause hargs
    catches := related_takeWhile hcatch hclauses
    finallies := related_takeWhile hfinally hrest
    strays := related_dropWhile hfinally hrest }

theorem related_clauseArgs (hC : C.Lawful) {f f' : Form} (hf : C.form f f') :
    Forall₂ C.form (clauseArgs f) (clauseArgs f') := by
  cases hC.matches_of hf with
  | list m m' hes =>
    cases hes with
    | nil => exact .nil
    | cons _ hrest => exact hrest
  | _ => exact .nil

/-! The constructs themselves. -/

section Constructs

variable (hC : C.Lawful) {form form' : Form} {args args' : List Form} {e e' : Env}
  (hf : C.form form form') (hargs : Forall₂ C.form args args') (he : e.Like C e')
include hC hf hargs he

theorem relates_analyzeQuote :
    C.Relates (analyzeQuote form args e) (analyzeQuote form' args' e')
      (C.Built form form') := by
  unfold analyzeQuote
  rcases hargs with _ | ⟨hquoted, _ | ⟨hmore, hrest⟩⟩
  · exact relates_wrongArity hC hf .nil
  · exact relates_pure (.of (.quote (hC.constant hquoted (he.withContext .expr))) he)
  · exact relates_wrongArity hC hf (.cons hquoted (.cons hmore hrest))

theorem relates_analyzeVar :
    C.Relates (analyzeVar form args e) (analyzeVar form' args' e') (C.Built form form') := by
  unfold analyzeVar
  rcases hargs with _ | ⟨hname, _ | ⟨hmore, hrest⟩⟩
  · exact relates_wrongArity hC hf .nil
  · cases hC.matches_of hname with
    | symbol x m m' =>
      refine relates_bind relates_directory ?_
      rintro _ _ ⟨s, t, hst, rfl, rfl⟩
      have hvar := hC.resolve e.ns x hst
      rw [← he.ns]
      generalize s.view.resolve? e.ns x = r at hvar ⊢
      generalize t.view.resolve? e.ns x = r' at hvar ⊢
      cases hvar with
      | found hv => exact relates_pure (.of (.theVar hv) he)
      | missing => exact relates_fail hC (.varNotFound hname) hf
      | escape v hescapes => exact relates_escape (hescapes _ _)
    | _ => exact relates_fail hC (.varNotFound hname) hf
  · exact relates_wrongArity hC hf (.cons hname (.cons hmore hrest))

omit he in
theorem relates_docAndInit {rest rest' : List Form} (hrest : Forall₂ C.form rest rest') :
    C.Relates (Definition.docAndInit form args rest) (Definition.docAndInit form' args' rest')
      fun r r' => r.1 = r'.1 ∧ Option.Rel C.form r.2 r'.2 := by
  rcases hrest with _ | ⟨hfst, _ | ⟨hsnd, _ | ⟨_, _⟩⟩⟩
  · exact relates_pure ⟨rfl, .none⟩
  · cases hC.matches_of hfst <;> exact relates_pure ⟨rfl, .some hfst⟩
  · cases hC.matches_of hfst with
    | string doc => exact relates_pure ⟨rfl, .some hsnd⟩
    | _ => exact relates_fail hC (.docNotString hfst) hf
  · cases hC.matches_of hfst <;> exact relates_wrongArity hC hf hargs

theorem relates_definition :
    C.Relates (Definition.ofArgs form args e) (Definition.ofArgs form' args' e')
      (Definition.Like C) := by
  unfold Definition.ofArgs
  cases hargs with
  | nil => exact relates_wrongArity hC hf .nil
  | cons hname hrest =>
    cases hC.matches_of hname with
    | symbol x m m' =>
      dsimp only
      rw [← he.ns]
      split
      · refine relates_bind (relates_docAndInit hC hf (.cons hname hrest) hrest) ?_
        rintro ⟨doc, init⟩ ⟨_, init'⟩ ⟨rfl, hinit⟩
        exact relates_pure {
          name := rfl
          metadata := ⟨x, hC.metadata doc init init' hname⟩
          metadataExpr := hC.metadataExpr doc init init' hname
          doc := hC.doc doc init init' hname
          init := hinit }
      · exact relates_fail_same hC hf
    | _ => exact relates_fail hC (.defNeedsSymbol hname) hf

variable {recurse recurse' : Recurse} (hr : C.Recurses recurse recurse')
include hr

omit hC hf in
theorem relates_analyzeAll :
    C.Relates (analyzeAll recurse args e) (analyzeAll recurse' args' e') (Forall₂ C.node) :=
  relates_mapM hargs fun f f' hf => hr f f' e e' hf he

theorem relates_analyzeIf :
    C.Relates (analyzeIf recurse form args e) (analyzeIf recurse' form' args' e')
      (C.Built form form') := by
  unfold analyzeIf
  rcases hargs with _ | ⟨h₁, _ | ⟨h₂, _ | ⟨h₃, _ | ⟨h₄, hrest⟩⟩⟩⟩
  · exact relates_wrongArity hC hf .nil
  · exact relates_wrongArity hC hf (.cons h₁ .nil)
  · refine relates_bind (hr _ _ _ _ h₁ (he.withContext .expr)) fun test test' ht => ?_
    refine relates_bind (hr _ _ _ _ h₂ he) fun onTrue onTrue' ha => ?_
    exact relates_pure (.of (.branch ht ha (hC.constant hC.nil he)) he)
  · refine relates_bind (hr _ _ _ _ h₁ (he.withContext .expr)) fun test test' ht => ?_
    refine relates_bind (hr _ _ _ _ h₂ he) fun onTrue onTrue' ha => ?_
    refine relates_bind (hr _ _ _ _ h₃ he) fun onFalse onFalse' hb => ?_
    exact relates_pure (.of (.branch ht ha hb) he)
  · exact relates_wrongArity hC hf (.cons h₁ (.cons h₂ (.cons h₃ (.cons h₄ hrest))))

omit hf in
theorem relates_analyzeSequence (body : Bool) :
    C.Relates (analyzeSequence recurse form args e body)
      (analyzeSequence recurse' form' args' e' body) (C.Built form form') := by
  unfold analyzeSequence
  have hlast := related_getLast? hargs
  generalize args.getLast? = last at hlast ⊢
  generalize args'.getLast? = last' at hlast ⊢
  cases hlast with
  | none => exact relates_pure (.of (.sequence body .nil (hC.constant hC.nil he)) he)
  | some hlast =>
    have hinit := related_dropLast hargs
    refine relates_bind (relates_analyzeAll hinit (he.withContext .statement) hr)
      fun statements statements' hs => ?_
    refine relates_bind (hr _ _ _ _ hlast he) fun ret ret' ht => ?_
    exact relates_pure (.of (.sequence body hs ht) he)

omit hf in
theorem relates_analyzeBody :
    C.Relates (analyzeBody recurse args e) (analyzeBody recurse' args' e') C.node := by
  have hdo := hC.call "do" hargs
  exact relates_mono (relates_analyzeSequence hC hargs he hr true) fun _ _ hn =>
    hn.node hC hdo

omit hargs in
theorem relates_wrapMetadata {op op' : Op} (hop : op.Like C op') :
    C.Relates (wrapMetadata recurse (.of op form e)) (wrapMetadata recurse' (.of op' form' e'))
      (C.Built form form') := by
  have hm := hC.semanticMetadata hf
  unfold wrapMetadata
  dsimp only [Node.of]
  rw [hC.isEmpty_eq hm]
  split
  · exact relates_pure (.of hop he)
  · have hexpr := he.withContext .expr
    refine relates_bind (hr _ _ _ _ hm hexpr) fun metadata metadata' hmeta => ?_
    exact relates_pure (.of (.withMetadata hmeta (hC.node hop hf hexpr)) he)

theorem relates_analyzeItems {op op' : List Node → Op}
    (hop : ∀ xs xs', Forall₂ C.node xs xs' → (op xs).Like C (op' xs')) :
    C.Relates (analyzeItems recurse op form args e) (analyzeItems recurse' op' form' args' e')
      (C.Built form form') := by
  unfold analyzeItems
  refine relates_bind (relates_analyzeAll hargs (he.withContext .expr) hr) fun xs xs' hs => ?_
  exact relates_wrapMetadata hC hf he hr (hop xs xs' hs)

omit hC hf hargs in
theorem relates_analyzeEntries {es es' : FormMap}
    (hes : Forall₂ (fun e e' => C.form e.1 e'.1 ∧ C.form e.2 e'.2) es es') :
    C.Relates (analyzeEntries recurse e es) (analyzeEntries recurse' e' es') fun r r' =>
      Forall₂ C.node r.1 r'.1 ∧ Forall₂ C.node r.2 r'.2 := by
  induction hes with
  | nil => exact relates_pure ⟨.nil, .nil⟩
  | cons hentry _ ih =>
    unfold analyzeEntries
    refine relates_bind (hr _ _ _ _ hentry.1 he) fun key key' hk => ?_
    refine relates_bind (hr _ _ _ _ hentry.2 he) fun val val' hv => ?_
    refine relates_bind ih fun r r' hs => ?_
    exact relates_pure ⟨.cons hk hs.1, .cons hv hs.2⟩

omit hargs in
theorem relates_analyzeMap {es es' : FormMap}
    (hes : Forall₂ (fun e e' => C.form e.1 e'.1 ∧ C.form e.2 e'.2) es es') :
    C.Relates (analyzeMap recurse form es e) (analyzeMap recurse' form' es' e')
      (C.Built form form') := by
  unfold analyzeMap
  refine relates_bind (relates_analyzeEntries (he.withContext .expr) hr hes) fun r r' hs => ?_
  exact relates_wrapMetadata hC hf he hr (.map hs.1 hs.2)

omit hargs in
theorem relates_branches {es es' : FormMap}
    (hes : Forall₂ (fun e e' => C.form e.1 e'.1 ∧ C.form e.2 e'.2) es es') :
    C.Relates (Case.branches recurse form e es) (Case.branches recurse' form' e' es')
      (Forall₂ C.node) := by
  induction hes with
  | nil => exact relates_pure .nil
  | cons hentry _ ih =>
    unfold Case.branches
    refine relates_bind (relates_check hC (Case.related_pair hC hentry.2) hf) fun p p' hp => ?_
    refine relates_bind (hr _ _ _ _ hp.2 he) fun body body' hb => ?_
    refine relates_bind ih fun branches branches' hs => ?_
    have htest := hC.constant hp.1 (he.withContext .expr)
    exact relates_pure (.cons (hC.node (.caseBranch (.cons htest .nil) hb) hentry.2 he) hs)

theorem relates_analyzeCase :
    C.Relates (analyzeCase recurse form args e) (analyzeCase recurse' form' args' e')
      (C.Built form form') := by
  unfold analyzeCase
  rcases hargs with
    _ | ⟨h₁, _ | ⟨h₂, _ | ⟨h₃, _ | ⟨h₄, _ | ⟨h₅, _ | ⟨h₆, _ | ⟨h₇, hrest⟩⟩⟩⟩⟩⟩⟩
  iterate 7
    · exact relates_fail_same hC hf
  simp only [List.length_cons, hrest.length_eq]
  split
  · refine relates_bind (relates_check hC (Case.related_number hC _ h₂) hf) ?_
    rintro shift _ rfl
    refine relates_bind (relates_check hC (Case.related_number hC _ h₃) hf) ?_
    rintro mask _ rfl
    refine relates_bind (relates_check hC (Case.related_entries hC h₅) hf) fun es es' hes => ?_
    refine relates_bind (relates_check hC (Case.related_switchKind hC h₆) hf) ?_
    rintro switch _ rfl
    refine relates_bind (relates_check hC (Case.related_testKind hC h₇) hf) ?_
    rintro tests _ rfl
    refine relates_bind (hr _ _ _ _ h₁ (he.withContext .expr)) fun test test' ht => ?_
    refine relates_bind (relates_branches hC hf he hr hes) fun branches branches' hs => ?_
    refine relates_bind (hr _ _ _ _ h₄ he) fun default default' hd => ?_
    exact relates_pure (.of (.case shift mask switch tests ht hs hd (related_head? hrest)) he)
  · exact relates_fail_same hC hf

theorem relates_analyzeThrow :
    C.Relates (analyzeThrow recurse form args e) (analyzeThrow recurse' form' args' e')
      (C.Built form form') := by
  unfold analyzeThrow
  rcases hargs with _ | ⟨h₁, _ | ⟨h₂, hrest⟩⟩
  · exact relates_wrongArity hC hf .nil
  · refine relates_bind (hr _ _ _ _ h₁ (he.withContext .expr)) fun exception exception' hx => ?_
    exact relates_pure (.of (.throw hx) he)
  · exact relates_wrongArity hC hf (.cons h₁ (.cons h₂ hrest))

theorem relates_analyzeNew :
    C.Relates (analyzeNew recurse form args e) (analyzeNew recurse' form' args' e')
      (C.Built form form') := by
  unfold analyzeNew
  cases hargs with
  | nil => exact relates_wrongArity hC hf .nil
  | cons hcls hrest =>
    refine relates_bind (hr _ _ _ _ hcls he.withoutLocals) fun cls cls' hc => ?_
    refine relates_bind (relates_analyzeAll hrest (he.withContext .expr) hr)
      fun args args' hs => ?_
    exact relates_pure (.of (.new hc hs) he)

theorem relates_analyzeAssign :
    C.Relates (analyzeAssign recurse form args e) (analyzeAssign recurse' form' args' e')
      (C.Built form form') := by
  unfold analyzeAssign
  rcases hargs with _ | ⟨h₁, _ | ⟨h₂, _ | ⟨h₃, hrest⟩⟩⟩
  · exact relates_wrongArity hC hf .nil
  · exact relates_wrongArity hC hf (.cons h₁ .nil)
  · refine relates_bind (hr _ _ _ _ h₁ (he.withContext .expr)) fun target target' ht => ?_
    refine relates_bind (hr _ _ _ _ h₂ (he.withContext .expr)) fun val val' hv => ?_
    exact relates_pure (.of (.assign ht hv) he)
  · exact relates_wrongArity hC hf (.cons h₁ (.cons h₂ (.cons h₃ hrest)))

theorem relates_analyzeDot :
    C.Relates (analyzeDot recurse form args e) (analyzeDot recurse' form' args' e')
      (C.Built form form') := by
  unfold analyzeDot
  rcases hargs with _ | ⟨htarget, _ | ⟨hmember, hrest⟩⟩
  · exact relates_wrongArity hC hf .nil
  · exact relates_wrongArity hC hf (.cons htarget .nil)
  · have hexpr := he.withContext .expr
    refine relates_bind (hr _ _ _ _ htarget hexpr) fun target target' ht => ?_
    refine relates_bind (relates_check hC (Member.related_ofForms hC hmember hrest) hf) ?_
    intro member member' hm
    cases hm with
    | field name => exact relates_pure (.of (.hostField name ht) he)
    | access name => exact relates_pure (.of (.hostMember name ht) he)
    | call name hargs =>
      refine relates_bind (relates_analyzeAll hargs hexpr hr) fun args args' hs => ?_
      exact relates_pure (.of (.hostCall name ht hs) he)

theorem relates_analyzeDef :
    C.Relates (analyzeDef recurse form args e) (analyzeDef recurse' form' args' e')
      (C.Built form form') := by
  unfold analyzeDef
  refine relates_bind (relates_definition hC hf hargs he) fun d d' hd => ?_
  obtain ⟨x, hx⟩ := hd.metadata
  rw [← he.ns, ← hd.name]
  refine relates_bind (relates_intern hC _ _ hx hf) fun v v' hv => ?_
  have hexpr := he.withContext .expr
  have hrest : ∀ metadata metadata', Option.Rel C.node metadata metadata' → C.Relates
      (do
        let init ← d.init.mapM (recurse · (e.withContext .expr))
        return .of (.define v d.doc metadata init) form e)
      (do
        let init ← d'.init.mapM (recurse' · (e'.withContext .expr))
        return .of (.define v' d'.doc metadata' init) form' e')
      (C.Built form form') := by
    intro metadata metadata' hm
    refine relates_bind (relates_option hd.init fun f f' hf => hr f f' _ _ hf hexpr)
      fun init init' hi => ?_
    rw [← hd.doc]
    exact relates_pure (.of (.define d.doc hv hm hi) he)
  dsimp only
  rw [hC.isEmpty_eq hd.metadataExpr]
  split
  · exact relates_bind (relates_pure .none) hrest
  · have hmetadata := hr _ _ _ _ hd.metadataExpr hexpr
    exact relates_bind (relates_map (relates_mono hmetadata fun _ _ hn => .some hn)) hrest

omit hargs in
theorem relates_analyzeCatch :
    C.Relates (analyzeCatch recurse e form) (analyzeCatch recurse' e' form') C.node := by
  have hclause := related_clauseArgs hC hf
  unfold analyzeCatch
  generalize clauseArgs form = args at hclause ⊢
  generalize clauseArgs form' = args' at hclause ⊢
  rcases hclause with _ | ⟨hcls, _ | ⟨hwritten, hexprs⟩⟩
  · exact relates_wrongArity hC hf .nil
  · exact relates_wrongArity hC hf (.cons hcls .nil)
  · cases hC.matches_of hwritten with
    | symbol name m m' =>
      dsimp only
      split
      · have hinner := he.leaveTry
        have hb : Binding.Like C { name, kind := .catch } { name, kind := .catch } := .of_init rfl
        have hcaught := hC.node (.binding hb) hwritten hinner.withoutLocals
        refine relates_bind (hr _ _ _ _ hcls hinner.withoutLocals) fun cls cls' hc => ?_
        refine relates_bind (relates_analyzeBody hC hexprs (hinner.bind hb) hr)
          fun body body' hbody => ?_
        exact relates_pure (hC.node (.handler hc hcaught hbody) hf hinner)
      · exact relates_fail hC (.badBinding hwritten) hwritten
    | _ => exact relates_fail hC (.badBinding hwritten) hwritten

omit hf in
theorem relates_analyzeTry :
    C.Relates (analyzeTry recurse form args e) (analyzeTry recurse' form' args' e')
      (C.Built form form') := by
  have hclauses := TryClauses.related_split hC hargs
  unfold analyzeTry
  generalize TryClauses.split args = c at hclauses ⊢
  generalize TryClauses.split args' = c' at hclauses ⊢
  obtain ⟨body, catches, finallies, strays⟩ := c
  obtain ⟨body', catches', finallies', strays'⟩ := c'
  obtain ⟨hbody, hcatches, hfinallies, hstrays⟩ := hclauses
  rcases hstrays with _ | ⟨hstray, _⟩
  · have htry : ∀ {fs fs'}, Forall₂ C.form fs fs' → C.Relates
        (do
          let body ← analyzeBody recurse body e.enterTry
          let catches ← catches.mapM (analyzeCatch recurse (e.enterTry.withContext .expr))
          let cleanup ← fs.head?.mapM fun clause =>
            analyzeBody recurse (clauseArgs clause) (e.withContext .statement).leaveTry
          return .of (.tryBlock body catches cleanup) form e)
        (do
          let body ← analyzeBody recurse' body' e'.enterTry
          let catches ← catches'.mapM (analyzeCatch recurse' (e'.enterTry.withContext .expr))
          let cleanup ← fs'.head?.mapM fun clause =>
            analyzeBody recurse' (clauseArgs clause) (e'.withContext .statement).leaveTry
          return .of (.tryBlock body catches cleanup) form' e')
        (C.Built form form') := by
      intro fs fs' hfs
      refine relates_bind (relates_analyzeBody hC hbody he.enterTry hr) fun body body' hb => ?_
      refine relates_bind (relates_mapM hcatches fun f f' hf =>
        relates_analyzeCatch hC hf (he.enterTry.withContext .expr) hr) fun catches catches' hs => ?_
      refine relates_bind (relates_option (related_head? hfs) fun f f' hf =>
        relates_analyzeBody hC (related_clauseArgs hC hf) (he.withContext .statement).leaveTry hr)
        fun cleanup cleanup' hc => ?_
      exact relates_pure (.of (.tryBlock hb hs hc) he)
    rcases hfinallies with _ | ⟨hfinally, _ | ⟨hsecond, _⟩⟩
    · exact htry .nil
    · exact htry (.cons hfinally .nil)
    · exact relates_fail_same hC hsecond
  · exact relates_fail_same hC hstray

end Constructs

end LispFront
