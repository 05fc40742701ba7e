import LispFront.Analysis.Definition
import LispFront.Proofs.Related

/-!
# Two analyses side by side

A correspondence says which forms, trees, vars, loop names, stores and errors count as the same in
two analyses that are run side by side. Operators, environments and faults then correspond when
their parts do. Nothing else is asked of a correspondence than that the steps an analysis is made of
respect it (`Correspondence.Lawful`); that whole analyses do is proved from that.
-/

namespace LispFront

open List (Forall₂)

inductive AnalysisFault.Like (R : Form → Form → Prop) : AnalysisFault → AnalysisFault → Prop
  | same (fault : AnalysisFault) : Like R fault fault
  | varNotFound {f f' : Form} : R f f' → Like R (.varNotFound f) (.varNotFound f')
  | memberNotSymbol {f f' : Form} : R f f' → Like R (.memberNotSymbol f) (.memberNotSymbol f')
  | defNeedsSymbol {f f' : Form} : R f f' → Like R (.defNeedsSymbol f) (.defNeedsSymbol f')
  | docNotString {f f' : Form} : R f f' → Like R (.docNotString f) (.docNotString f')
  | badBinding {f f' : Form} : R f f' → Like R (.badBinding f) (.badBinding f')
  | bindingsNotVector (op : String) {f f' : Form} :
      R f f' → Like R (.bindingsNotVector op f) (.bindingsNotVector op f')
  | methodNotList {f f' : Form} : R f f' → Like R (.methodNotList f) (.methodNotList f')
  | paramsNotVector {f f' : Form} : R f f' → Like R (.paramsNotVector f) (.paramsNotVector f')
  | badParam {f f' : Form} : R f f' → Like R (.badParam f) (.badParam f')
  | caseArgument (argument expected : String) {f f' : Form} :
      R f f' → Like R (.caseArgument argument expected f) (.caseArgument argument expected f')
  | unknownSwitch {f f' : Form} : R f f' → Like R (.unknownSwitch f) (.unknownSwitch f')
  | unknownTest {f f' : Form} : R f f' → Like R (.unknownTest f) (.unknownTest f')

theorem AnalysisFault.Like.mono {R S : Form → Form → Prop} (h : ∀ f f', R f f' → S f f')
    {x y : AnalysisFault} (hxy : Like R x y) : Like S x y := by
  cases hxy with
  | same => exact .same _
  | varNotFound hf => exact .varNotFound (h _ _ hf)
  | memberNotSymbol hf => exact .memberNotSymbol (h _ _ hf)
  | defNeedsSymbol hf => exact .defNeedsSymbol (h _ _ hf)
  | docNotString hf => exact .docNotString (h _ _ hf)
  | badBinding hf => exact .badBinding (h _ _ hf)
  | bindingsNotVector op hf => exact .bindingsNotVector op (h _ _ hf)
  | methodNotList hf => exact .methodNotList (h _ _ hf)
  | paramsNotVector hf => exact .paramsNotVector (h _ _ hf)
  | badParam hf => exact .badParam (h _ _ hf)
  | caseArgument argument expected hf => exact .caseArgument argument expected (h _ _ hf)
  | unknownSwitch hf => exact .unknownSwitch (h _ _ hf)
  | unknownTest hf => exact .unknownTest (h _ _ hf)

structure Correspondence where
  form : Form → Form → Prop
  node : Node → Node → Prop
  var : Var → Var → Prop
  loopId : Symbol → Symbol → Prop
  store : Analysis → Analysis → Prop
  error : AnalysisError → AnalysisError → Prop
  /-- The errors of the first analysis of which the second one need know nothing. -/
  escapes : AnalysisError → Prop

structure Binding.Like (C : Correspondence) (b b' : Binding) : Prop where
  name : b.name = b'.name
  kind : b.kind = b'.kind
  init : Option.Rel C.node b.init b'.init
  argId : b.argId = b'.argId
  variadic : b.variadic = b'.variadic
  assignable : b.assignable = b'.assignable

structure Env.Like (C : Correspondence) (e e' : Env) : Prop where
  locals : Forall₂ (Binding.Like C) e.locals e'.locals
  context : e.context = e'.context
  ns : e.ns = e'.ns
  loopId : Option.Rel C.loopId e.loopId e'.loopId
  loopArity : e.loopArity = e'.loopArity
  inTry : e.inTry = e'.inTry
  once : e.once = e'.once
  topLevel : e.topLevel = e'.topLevel
  self : Option.Rel (Binding.Like C) e.self e'.self

inductive Op.Like (C : Correspondence) : Op → Op → Prop
  | const {kind : ConstKind} {val val' : Form} {m m' : Option Node} :
      C.form val val' → Option.Rel C.node m m' → Like C (.const kind val m) (.const kind val' m')
  | vector {xs xs' : List Node} : Forall₂ C.node xs xs' → Like C (.vector xs) (.vector xs')
  | map {ks ks' vs vs' : List Node} :
      Forall₂ C.node ks ks' → Forall₂ C.node vs vs' → Like C (.map ks vs) (.map ks' vs')
  | set {xs xs' : List Node} : Forall₂ C.node xs xs' → Like C (.set xs) (.set xs')
  | localRef {b b' : Binding} : b.Like C b' → Like C (.localRef b) (.localRef b')
  | varRef {v v' : Var} : C.var v v' → Like C (.varRef v) (.varRef v')
  | theVar {v v' : Var} : C.var v v' → Like C (.theVar v) (.theVar v')
  | hostForm (cls field : Symbol) : Like C (.hostForm cls field) (.hostForm cls field)
  | classRef (cls : Symbol) : Like C (.classRef cls) (.classRef cls)
  | invoke {fn fn' : Node} {args args' : List Node} {m m' : FormMap} :
      C.node fn fn' → Forall₂ C.node args args' → C.form (.map m []) (.map m' []) →
      Like C (.invoke fn args m) (.invoke fn' args' m')
  | sequence {xs xs' : List Node} {ret ret' : Node} (body : Bool) :
      Forall₂ C.node xs xs' → C.node ret ret' →
      Like C (.sequence xs ret body) (.sequence xs' ret' body)
  | branch {x x' y y' z z' : Node} :
      C.node x x' → C.node y y' → C.node z z' → Like C (.branch x y z) (.branch x' y' z')
  | new {cls cls' : Node} {args args' : List Node} :
      C.node cls cls' → Forall₂ C.node args args' → Like C (.new cls args) (.new cls' args')
  | quote {x x' : Node} : C.node x x' → Like C (.quote x) (.quote x')
  | assign {x x' y y' : Node} :
      C.node x x' → C.node y y' → Like C (.assign x y) (.assign x' y')
  | tryBlock {body body' : Node} {catches catches' : List Node} {cleanup cleanup' : Option Node} :
      C.node body body' → Forall₂ C.node catches catches' → Option.Rel C.node cleanup cleanup' →
      Like C (.tryBlock body catches cleanup) (.tryBlock body' catches' cleanup')
  | handler {x x' y y' z z' : Node} :
      C.node x x' → C.node y y' → C.node z z' → Like C (.handler x y z) (.handler x' y' z')
  | throw {x x' : Node} : C.node x x' → Like C (.throw x) (.throw x')
  | define {v v' : Var} (doc : Option String) {m m' init init' : Option Node} :
      C.var v v' → Option.Rel C.node m m' → Option.Rel C.node init init' →
      Like C (.define v doc m init) (.define v' doc m' init')
  | hostCall {x x' : Node} (method : Symbol) {args args' : List Node} :
      C.node x x' → Forall₂ C.node args args' →
      Like C (.hostCall x method args) (.hostCall x' method args')
  | hostField {x x' : Node} (field : Symbol) :
      C.node x x' → Like C (.hostField x field) (.hostField x' field)
  | hostMember {x x' : Node} (member : Symbol) :
      C.node x x' → Like C (.hostMember x member) (.hostMember x' member)
  | letBlock {bs bs' : List Node} {body body' : Node} :
      Forall₂ C.node bs bs' → C.node body body' → Like C (.letBlock bs body) (.letBlock bs' body')
  | letfnBlock {bs bs' : List Node} {body body' : Node} :
      Forall₂ C.node bs bs' → C.node body body' →
      Like C (.letfnBlock bs body) (.letfnBlock bs' body')
  | loop {id id' : Symbol} {bs bs' : List Node} {body body' : Node} :
      C.loopId id id' → Forall₂ C.node bs bs' → C.node body body' →
      Like C (.loop id bs body) (.loop id' bs' body')
  | recur {id id' : Symbol} {xs xs' : List Node} :
      C.loopId id id' → Forall₂ C.node xs xs' → Like C (.recur id xs) (.recur id' xs')
  | fn {self self' : Option Node} {methods methods' : List Node} (variadic : Bool)
      (maxFixed : Option Nat) (once : Bool) :
      Option.Rel C.node self self' → Forall₂ C.node methods methods' →
      Like C (.fn self methods variadic maxFixed once) (.fn self' methods' variadic maxFixed once)
  | method {id id' : Symbol} {params params' : List Node} (fixed : Nat) (variadic : Bool)
      {body body' : Node} {self self' : Option Binding} :
      C.loopId id id' → Forall₂ C.node params params' → C.node body body' →
      Option.Rel (Binding.Like C) self self' →
      Like C (.method id params fixed variadic body self)
        (.method id' params' fixed variadic body' self')
  | binding {b b' : Binding} : b.Like C b' → Like C (.binding b) (.binding b')
  | withMetadata {x x' y y' : Node} :
      C.node x x' → C.node y y' → Like C (.withMetadata x y) (.withMetadata x' y')
  | case {test test' : Node} {branches branches' : List Node} {default default' : Node}
      (shift mask : Int64) (switch : SwitchKind) (tests : TestKind) {skip skip' : Option Form} :
      C.node test test' → Forall₂ C.node branches branches' → C.node default default' →
      Option.Rel C.form skip skip' →
      Like C (.case test branches default shift mask switch tests skip)
        (.case test' branches' default' shift mask switch tests skip')
  | caseBranch {xs xs' : List Node} {body body' : Node} :
      Forall₂ C.node xs xs' → C.node body body' → Like C (.caseBranch xs body) (.caseBranch xs' body')

/-- What corresponds in the first sense does so in the second; nothing is said of stores and
errors. -/
structure Correspondence.Refines (C D : Correspondence) : Prop where
  form {f f' : Form} : C.form f f' → D.form f f'
  node {n n' : Node} : C.node n n' → D.node n n'
  var {v v' : Var} : C.var v v' → D.var v v'
  loopId {id id' : Symbol} : C.loopId id id' → D.loopId id id'

section Refines

variable {C D : Correspondence} (hD : C.Refines D)
include hD

theorem Binding.Like.mono {b b' : Binding} (h : b.Like C b') : b.Like D b' :=
  { h with init := related_option_mono h.init fun _ _ => hD.node }

theorem Env.Like.mono {e e' : Env} (h : e.Like C e') : e.Like D e' :=
  { h with
    locals := h.locals.imp fun _ _ => .mono hD
    loopId := related_option_mono h.loopId fun _ _ => hD.loopId
    self := related_option_mono h.self fun _ _ => .mono hD }

theorem Op.Like.mono {op op' : Op} (h : op.Like C op') : op.Like D op' := by
  have nodes {xs xs' : List Node} (hxs : Forall₂ C.node xs xs') : Forall₂ D.node xs xs' :=
    hxs.imp fun _ _ => hD.node
  have node? {x x' : Option Node} (hx : Option.Rel C.node x x') : Option.Rel D.node x x' :=
    related_option_mono hx fun _ _ => hD.node
  cases h with
  | const hval hm => exact .const (hD.form hval) (node? hm)
  | vector hxs => exact .vector (nodes hxs)
  | map hks hvs => exact .map (nodes hks) (nodes hvs)
  | set hxs => exact .set (nodes hxs)
  | localRef hb => exact .localRef (hb.mono hD)
  | varRef hv => exact .varRef (hD.var hv)
  | theVar hv => exact .theVar (hD.var hv)
  | hostForm cls field => exact .hostForm cls field
  | classRef cls => exact .classRef cls
  | invoke hfn hargs hm => exact .invoke (hD.node hfn) (nodes hargs) (hD.form hm)
  | sequence body hxs hret => exact .sequence body (nodes hxs) (hD.node hret)
  | branch hx hy hz => exact .branch (hD.node hx) (hD.node hy) (hD.node hz)
  | new hcls hargs => exact .new (hD.node hcls) (nodes hargs)
  | quote hx => exact .quote (hD.node hx)
  | assign hx hy => exact .assign (hD.node hx) (hD.node hy)
  | tryBlock hbody hcatches hcleanup =>
    exact .tryBlock (hD.node hbody) (nodes hcatches) (node? hcleanup)
  | handler hx hy hz => exact .handler (hD.node hx) (hD.node hy) (hD.node hz)
  | throw hx => exact .throw (hD.node hx)
  | define doc hv hm hinit => exact .define doc (hD.var hv) (node? hm) (node? hinit)
  | hostCall method hx hargs => exact .hostCall method (hD.node hx) (nodes hargs)
  | hostField field hx => exact .hostField field (hD.node hx)
  | hostMember member hx => exact .hostMember member (hD.node hx)
  | letBlock hbs hbody => exact .letBlock (nodes hbs) (hD.node hbody)
  | letfnBlock hbs hbody => exact .letfnBlock (nodes hbs) (hD.node hbody)
  | loop hid hbs hbody => exact .loop (hD.loopId hid) (nodes hbs) (hD.node hbody)
  | recur hid hxs => exact .recur (hD.loopId hid) (nodes hxs)
  | fn variadic maxFixed once hself hmethods =>
    exact .fn variadic maxFixed once (node? hself) (nodes hmethods)
  | method fixed variadic hid hparams hbody hself =>
    exact .method fixed variadic (hD.loopId hid) (nodes hparams) (hD.node hbody)
      (related_option_mono hself fun _ _ => .mono hD)
  | binding hb => exact .binding (hb.mono hD)
  | withMetadata hx hy => exact .withMetadata (hD.node hx) (hD.node hy)
  | case shift mask switch tests htest hbranches hdefault hskip =>
    exact .case shift mask switch tests (hD.node htest) (nodes hbranches) (hD.node hdefault)
      (related_option_mono hskip fun _ _ => hD.form)
  | caseBranch hxs hbody => exact .caseBranch (nodes hxs) (hD.node hbody)

end Refines

namespace Correspondence

/-- Both directories take the var, or both refuse it for the same reason, or that the first one
refuses it escapes. -/
inductive Interned (C : Correspondence) (s t : Analysis) :
    Except DirectoryError (Var × Directory) → Except DirectoryError (Var × Directory) → Prop
  | ok {v v' : Var} {d d' : Directory} :
      C.var v v' →
      C.store { s with directory := d, view := d } { t with directory := d', view := d' } →
      Interned C s t (.ok (v, d)) (.ok (v', d'))
  | error (e : DirectoryError) : Interned C s t (.error e) (.error e)
  | escape {e : DirectoryError} (r : Except DirectoryError (Var × Directory)) :
      (∀ form, C.escapes (.of (.directory e) form)) → Interned C s t (.error e) r

/-- Both directories find a var, or neither does, or that the first one finds none escapes. -/
inductive Resolved (C : Correspondence) : Option Var → Option Var → Prop
  | found {v v' : Var} : C.var v v' → Resolved C (some v) (some v')
  | missing : Resolved C none none
  | escape (v : Option Var) : (∀ f form, C.escapes (.of (.varNotFound f) form)) → Resolved C none v

structure ReadsAlike (R : Form → Form → Prop) : Prop where
  matches_of {f f' : Form} : R f f' → f.Matches R f'
  beq_eq {f f' g g' : Form} : R f f' → R g g' → (f == g) = (f' == g')
  nil : R .nil .nil
  sym (name : String) : R (.sym name) (.sym name)
  list {es es' : List Form} : Forall₂ R es es' → R (.list es []) (.list es' [])
  semanticMetadata {f f' : Form} :
    R f f' → R (.map f.semanticMetadata []) (.map f'.semanticMetadata [])
  once {f f' : Form} : R f f' →
    (f.metadataValue? "once" == some (.bool true)) = (f'.metadataValue? "once" == some (.bool true))
  doc {x : Symbol} {m m' : FormMap} (doc : Option String) (init init' : Option Form) :
    R (.symbol x m) (.symbol x m') →
    (Definition.ofParts x m doc init).doc = (Definition.ofParts x m' doc init').doc
  metadata {x : Symbol} {m m' : FormMap} (doc : Option String) (init init' : Option Form) :
    R (.symbol x m) (.symbol x m') →
    R (.symbol x (Definition.ofParts x m doc init).metadata)
      (.symbol x (Definition.ofParts x m' doc init').metadata)
  metadataExpr {x : Symbol} {m m' : FormMap} (doc : Option String) (init init' : Option Form) :
    R (.symbol x m) (.symbol x m') →
    R (.map (Definition.ofParts x m doc init).metadataExpr [])
      (.map (Definition.ofParts x m' doc init').metadataExpr [])

theorem eq_of_forall₂ {α : Type} {l l' : List α} (h : Forall₂ Eq l l') : l = l' := by
  rwa [List.forall₂_eq_eq_eq] at h

theorem matches_refl (f : Form) : f.Matches Eq f := by
  cases f with
  | nil => exact .nil
  | bool b => exact .bool b
  | number n => exact .number n
  | string s => exact .string s
  | char c => exact .char c
  | keyword k => exact .keyword k
  | symbol s m => exact .symbol s m m
  | regex source => exact .regex source
  | list es m => exact .list m m (List.forall₂_refl es)
  | vector es m => exact .vector m m (List.forall₂_refl es)
  | map es m => exact .map m m (List.forall₂_same.mpr fun _ _ => ⟨rfl, rfl⟩)
  | set es m => exact .set m m (List.forall₂_refl es)
  | var v => exact .var v

theorem readsAlike_eq : ReadsAlike Eq where
  matches_of := by
    rintro f _ rfl
    exact matches_refl f
  beq_eq := by
    rintro f _ g _ rfl rfl
    rfl
  nil := rfl
  sym _ := rfl
  list hes := by
    rw [eq_of_forall₂ hes]
  semanticMetadata := by
    rintro f _ rfl
    rfl
  once := by
    rintro f _ rfl
    rfl
  doc := by
    rintro x m m' doc init init' h
    cases h
    rfl
  metadata := by
    rintro x m m' doc init init' h
    cases h
    rfl
  metadataExpr := by
    rintro x m m' doc init init' h
    cases h
    rfl

/-- Each step that an analysis is made of goes from what corresponds to what corresponds. -/
structure Lawful (C : Correspondence) : Prop extends ReadsAlike C.form where
  resolve {s t : Analysis} (ns x : Symbol) : C.store s t →
    C.Resolved (s.view.resolve? ns x) (t.view.resolve? ns x)
  intern {s t : Analysis} (ns name : Symbol) {x : Symbol} {m m' : FormMap} : C.store s t →
    C.form (.symbol x m) (.symbol x m') →
    C.Interned s t (s.directory.intern ns name m) (t.directory.intern ns name m')
  loopId {s t : Analysis} : C.store s t → C.loopId (s.names.peek "loop_") (t.names.peek "loop_")
  advance {s t : Analysis} : C.store s t →
    C.store { s with names := s.names.advance } { t with names := t.names.advance }
  node {op op' : Op} {f f' : Form} {e e' : Env} :
    op.Like C op' → C.form f f' → e.Like C e' → C.node (.of op f e) (.of op' f' e')
  expandedFrom {n n' : Node} {f f' : Form} :
    C.node n n' → C.form f f' → C.node (n.addExpandedFrom f) (n'.addExpandedFrom f')
  error {x x' : AnalysisFault} {f f' : Form} :
    x.Like C.form x' → C.form f f' → C.error (.of x f) (.of x' f')
  within {e e' : AnalysisError} {f f' : Form} :
    C.error e e' → C.form f f' → C.error (e.within f) (e'.within f')
  escapes_within {e : AnalysisError} (f : Form) : C.escapes e → C.escapes (e.within f)

structure Agrees (C : Correspondence) : Prop where
  resolve {s t : Analysis} (ns x : Symbol) : C.store s t →
    Option.Rel C.var (s.view.resolve? ns x) (t.view.resolve? ns x)
  isClass {s t : Analysis} (x : Symbol) : C.store s t →
    s.view.isClass x = t.view.isClass x

theorem Agrees.resolved {C : Correspondence} (h : C.Agrees) {s t : Analysis} (ns x : Symbol)
    (hst : C.store s t) : C.Resolved (s.view.resolve? ns x) (t.view.resolve? ns x) := by
  have hvar := h.resolve ns x hst
  generalize s.view.resolve? ns x = v at hvar ⊢
  generalize t.view.resolve? ns x = v' at hvar ⊢
  cases hvar with
  | some hv => exact .found hv
  | none => exact .missing

end Correspondence

variable {C : Correspondence}

namespace Binding.Like

theorem withoutInit {b b' : Binding} (h : b.Like C b') : b.withoutInit.Like C b'.withoutInit :=
  { h with init := .none }

theorem of_init {b : Binding} (h : b.init = none) : b.Like C b :=
  ⟨rfl, rfl, h ▸ .none, rfl, rfl, rfl⟩

theorem refl (hnode : ∀ n, C.node n n) (b : Binding) : b.Like C b :=
  ⟨rfl, rfl, related_option_refl hnode b.init, rfl, rfl, rfl⟩

end Binding.Like

theorem Env.Like.refl (hnode : ∀ n, C.node n n) (hid : ∀ id, C.loopId id id) (e : Env) :
    e.Like C e where
  locals := List.forall₂_same.mpr fun b _ => .refl hnode b
  context := rfl
  ns := rfl
  loopId := related_option_refl hid e.loopId
  loopArity := rfl
  inTry := rfl
  once := rfl
  topLevel := rfl
  self := related_option_refl (.refl hnode) e.self

namespace Env.Like

variable {e e' : Env} (h : e.Like C e')
include h

theorem withContext (c : Context) : (e.withContext c).Like C (e'.withContext c) :=
  { h with context := rfl }

theorem local? (s : Symbol) : Option.Rel (Binding.Like C) (e.local? s) (e'.local? s) :=
  Sorted.related_find? (fun _ _ hb => congrArg s.cmp hb.name) h.locals

theorem bind {b b' : Binding} (hb : b.Like C b') : (e.bind b).Like C (e'.bind b') := by
  refine { h with locals := Sorted.related_insert (fun a a' b b' ha hb => ?_) hb h.locals }
  rw [ha.name, hb.name]

theorem bindMany {bs bs' : List Binding} (hbs : Forall₂ (Binding.Like C) bs bs') :
    (e.bindMany bs).Like C (e'.bindMany bs') := by
  induction hbs generalizing e e' with
  | nil => exact h
  | cons hb _ ih => exact ih (h.bind hb)

theorem withoutLocals : e.withoutLocals.Like C e'.withoutLocals := { h with locals := .nil }

theorem withLoopId {id id' : Symbol} (hid : C.loopId id id') :
    (e.withLoopId id).Like C (e'.withLoopId id') :=
  { h with loopId := .some hid }

theorem withLoop {id id' : Symbol} (hid : C.loopId id id') {arity arity' : Nat}
    (harity : arity = arity') : (e.withLoop id arity).Like C (e'.withLoop id' arity') :=
  { h with loopId := .some hid, loopArity := congrArg some harity }

theorem enterTry : e.enterTry.Like C e'.enterTry := { h with inTry := rfl }

theorem leaveTry : e.leaveTry.Like C e'.leaveTry := { h with inTry := rfl }

theorem withOnce {once once' : Bool} (honce : once = once') :
    (e.withOnce once).Like C (e'.withOnce once') :=
  { h with once := honce }

theorem withSelf {b b' : Binding} (hb : b.Like C b') : (e.withSelf b).Like C (e'.withSelf b') :=
  { h with self := .some hb }

theorem withoutSelf : e.withoutSelf.Like C e'.withoutSelf := { h with self := .none }

end Env.Like

end LispFront
