import LispFront.Analysis.Sequence

/-!
# Defining and naming vars

A definition interns its var before its metadata and its value are analyzed, so both may refer to
it. The metadata of the var is that of the defined symbol. Argument lists written as a quotation are
recorded without the quote, and quoted again where the metadata is evaluated.
-/

namespace LispFront

/-- What a quotation quotes; any other form itself. -/
def unquote : Form → Form
  | .list [.symbol s m, f] m' => if s.is "quote" then f else .list [.symbol s m, f] m'
  | f => f

structure Definition where
  name : Symbol
  metadata : FormMap
  doc : Option String
  init : Option Form

namespace Definition

def docAndInit (form : Form) (args : List Form) :
    List Form → AnalyzerM (Option String × Option Form)
  | [] => return (none, none)
  | [init] => return (none, some init)
  | [.string doc, init] => return (some doc, some init)
  | [f, _] => AnalyzerM.fail (.docNotString f) form
  | _ => AnalyzerM.wrongArity "def" (.between 1 3) form args

/-- Documentation in the metadata counts if none is given, and stays there in any case. -/
def ofParts (name : Symbol) (metadata : FormMap) (doc : Option String) (init : Option Form) :
    Definition :=
  let metadata := match FormMap.find? metadata (.key "arglists") with
    | some f => FormMap.insert metadata (.key "arglists") (unquote f)
    | none => metadata
  let doc := doc.or (match FormMap.find? metadata (.key "doc") with
    | some (.string doc) => some doc
    | _ => none)
  let metadata := match doc with
    | some doc => FormMap.insert metadata (.key "doc") (.string doc)
    | none => metadata
  { name := .plain name.name, metadata, doc, init }

def ofArgs (form : Form) (args : List Form) (env : Env) : AnalyzerM Definition := do
  match args with
  | [] => AnalyzerM.wrongArity "def" (.between 1 3) form args
  | .symbol name metadata :: rest =>
    if name.ns.isNone || name.ns == some env.ns.name then
      let (doc, init) ← docAndInit form args rest
      return ofParts name metadata doc init
    else AnalyzerM.fail (.qualifiedDef name) form
  | f :: _ => AnalyzerM.fail (.defNeedsSymbol f) form

def metadataExpr (d : Definition) : FormMap :=
  FormMap.withoutSource <|
    match FormMap.find? d.metadata (.key "arglists") with
    | some f => FormMap.insert d.metadata (.key "arglists") (.call "quote" [f])
    | none => d.metadata

end Definition

def analyzeDef (recurse : Recurse) (form : Form) (args : List Form) (env : Env) :
    AnalyzerM Node := do
  let d ← Definition.ofArgs form args env
  let var ← AnalyzerM.intern env.ns d.name d.metadata form
  let inner := env.withContext .expr
  let metadata ← if d.metadataExpr.isEmpty then pure none
    else some <$> recurse (.map d.metadataExpr []) inner
  let init ← d.init.mapM (recurse · inner)
  return .of (.define var d.doc metadata init) form env

def analyzeVar (form : Form) (args : List Form) (env : Env) : AnalyzerM Node := do
  match args with
  | [f] =>
    match f with
    | .symbol s _ =>
      match (← AnalyzerM.directory).resolve? env.ns s with
      | some var => return .of (.theVar var) form env
      | none => AnalyzerM.fail (.varNotFound f) form
    | _ => AnalyzerM.fail (.varNotFound f) form
  | _ => AnalyzerM.wrongArity "var" (.exactly 1) form args

end LispFront
