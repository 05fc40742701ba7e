import LispFront.Analysis.Basic

/-!
# Constants, sequences and metadata

A constant is a form taken as it stands. In a sequence all expressions but the last are statements;
the bodies of other constructs are sequences that nobody wrote. Metadata that means something is
evaluated beside the collection or function that carries it.
-/

namespace LispFront

def metadataConstant? (m : FormMap) (env : Env) : Option Node :=
  if m.isEmpty then none else some (.of (.const .map (.map m []) none) (.map m []) env)

def constant (f : Form) (env : Env) : Node :=
  .of (.const (.of f) f (metadataConstant? f.semanticMetadata (env.withContext .expr))) f env

def analyzeSequence (recurse : Recurse) (form : Form) (exprs : List Form) (env : Env)
    (body : Bool) : AnalyzerM Node := do
  match exprs.getLast? with
  | none => return .of (.sequence [] (constant .nil env) body) form env
  | some last =>
    let statements ← analyzeAll recurse exprs.dropLast (env.withContext .statement)
    let ret ← recurse last env
    return .of (.sequence statements ret body) form env

/-- The body of a construct: a sequence of its own. -/
def analyzeBody (recurse : Recurse) (exprs : List Form) (env : Env) : AnalyzerM Node :=
  analyzeSequence recurse (.call "do" exprs) exprs env true

def wrapMetadata (recurse : Recurse) (n : Node) : AnalyzerM Node := do
  let m := n.form.semanticMetadata
  if m.isEmpty then return n
  else
    let env := n.env.withContext .expr
    let metadata ← recurse (.map m []) env
    return .of (.withMetadata metadata { n with env }) n.form n.env

def analyzeQuote (form : Form) (args : List Form) (env : Env) : AnalyzerM Node :=
  match args with
  | [f] => return .of (.quote (constant f (env.withContext .expr))) form env
  | _ => AnalyzerM.wrongArity "quote" (.exactly 1) form args

def analyzeItems (recurse : Recurse) (op : List Node → Op) (form : Form) (items : List Form)
    (env : Env) : AnalyzerM Node := do
  let nodes ← analyzeAll recurse items (env.withContext .expr)
  wrapMetadata recurse (.of (op nodes) form env)

def analyzeEntries (recurse : Recurse) (env : Env) :
    List (Form × Form) → AnalyzerM (List Node × List Node)
  | [] => return ([], [])
  | (k, v) :: entries => do
    let key ← recurse k env
    let val ← recurse v env
    let (keys, vals) ← analyzeEntries recurse env entries
    return (key :: keys, val :: vals)

def analyzeMap (recurse : Recurse) (form : Form) (entries : FormMap) (env : Env) :
    AnalyzerM Node := do
  let (keys, vals) ← analyzeEntries recurse (env.withContext .expr) entries
  wrapMetadata recurse (.of (.map keys vals) form env)

end LispFront
