import LispFront.Analysis.Sequence

/-!
# Constructs that bind locals

`let*` and `loop*` bind names one after the other, each initial value seeing the names before it;
`letfn*` binds all its names at once, each value seeing them all. The body of a loop is what its
`recur` goes back to: the arguments of `recur` are the new values of the loop's names.
-/

namespace LispFront

structure BindingPair where
  written : Form
  name : Symbol
  init : Form

namespace BindingPair

/-- Reads names and values in turn; a name that can not be bound is itself to blame. -/
def ofForms : List Form → AnalyzerM (List BindingPair)
  | written :: init :: rest =>
    match written with
    | .symbol name _ =>
      if name.isBindable then return ⟨written, name, init⟩ :: (← ofForms rest)
      else AnalyzerM.fail (.badBinding written) written
    | _ => AnalyzerM.fail (.badBinding written) written
  | _ => return []

def ofArgs (op : String) (form : Form) : List Form → AnalyzerM (List BindingPair × List Form)
  | [] => AnalyzerM.fail (.missingBindings op) form
  | .vector elems m :: body =>
    if elems.length % 2 = 0 then return (← ofForms elems, body)
    else AnalyzerM.fail (.bindingsNotPaired op elems.length) (.vector elems m)
  | f :: _ => AnalyzerM.fail (.bindingsNotVector op f) form

def bindingNode (b : Binding) (p : BindingPair) (env : Env) : Node :=
  .of (.binding b) p.written env

end BindingPair

def bindInTurn (recurse : Recurse) (kind : LocalKind) :
    List BindingPair → Env → AnalyzerM (List Node × Env)
  | [], env => return ([], env)
  | p :: ps, env => do
    let init ← recurse p.init (env.withContext .expr)
    let b : Binding := { name := p.name, kind, init }
    let (nodes, inner) ← bindInTurn recurse kind ps (env.bind b)
    return (p.bindingNode b env :: nodes, inner)

def analyzeLet (recurse : Recurse) (form : Form) (args : List Form) (env : Env) :
    AnalyzerM Node := do
  let (pairs, exprs) ← BindingPair.ofArgs "let*" form args
  let (bindings, inner) ← bindInTurn recurse .let pairs env
  let body ← analyzeBody recurse exprs inner
  return .of (.letBlock bindings body) form env

/-- The loop has its name before its bindings are looked at. -/
def analyzeLoop (recurse : Recurse) (form : Form) (args : List Form) (outer : Env) :
    AnalyzerM Node := do
  let id ← AnalyzerM.drawLoopId
  let env := outer.withLoopId id
  let (pairs, exprs) ← BindingPair.ofArgs "loop*" form args
  let (bindings, inner) ← bindInTurn recurse .loop pairs env
  let body ← analyzeBody recurse exprs
    ((inner.withContext .ret).withLoop id bindings.length).leaveTry
  return .of (.loop id bindings body) form env

def firstRepeated? (seen : List Symbol) : List BindingPair → Option BindingPair
  | [] => none
  | p :: ps => if p.name ∈ seen then some p else firstRepeated? (p.name :: seen) ps

def letfnBindings (recurse : Recurse) (env : Env) :
    List BindingPair → AnalyzerM (List (BindingPair × Binding))
  | [] => return []
  | p :: ps => do
    let init ← recurse p.init (env.withContext .expr)
    let b : Binding := { name := p.name, kind := .letfn, init }
    return (p, b) :: (← letfnBindings recurse env ps)

def analyzeLetfn (recurse : Recurse) (form : Form) (args : List Form) (env : Env) :
    AnalyzerM Node := do
  let (pairs, exprs) ← BindingPair.ofArgs "letfn*" form args
  match firstRepeated? [] pairs with
  | some p => AnalyzerM.fail (.duplicateLetfn p.name) p.written
  | none =>
    let initEnv := env.bindMany (pairs.map fun p => { name := p.name, kind := .letfn })
    let bound ← letfnBindings recurse initEnv pairs
    let body ← analyzeBody recurse exprs (env.bindMany (bound.map (·.2)))
    return .of (.letfnBlock (bound.map fun (p, b) => p.bindingNode b initEnv) body) form env

/-- Goes back to the loop or function around it, from where that would return and not out of a
`try`, with as many values as it takes. -/
def analyzeRecur (recurse : Recurse) (form : Form) (args : List Form) (env : Env) :
    AnalyzerM Node := do
  match env.context, env.loopId, env.loopArity with
  | .ret, some id, some arity =>
    if env.inTry then AnalyzerM.fail .recurAcrossTry form
    else if args.length = arity then
      let exprs ← analyzeAll recurse args (env.withContext .expr)
      return .of (.recur id exprs) form env
    else AnalyzerM.fail (.recurArity arity args.length) form
  | _, _, _ => AnalyzerM.fail .recurOutsideTail form

end LispFront
