import LispFront.Analysis.Sequence

/-!
# Exceptions

Behind the expressions of a `try` stand its `catch` clauses and then at most one `finally` clause.
The body is inside the `try`, so nothing in it goes back to a loop around the `try`. A clause is
outside: what a handler gives is used, what the `finally` clause gives is dropped.
-/

namespace LispFront

def analyzeThrow (recurse : Recurse) (form : Form) (args : List Form) (env : Env) :
    AnalyzerM Node := do
  match args with
  | [exception] =>
    return .of (.throw (← recurse exception (env.withContext .expr))) form env
  | _ => AnalyzerM.wrongArity "throw" (.exactly 1) form args

structure TryClauses where
  body : List Form
  catches : List Form
  finallies : List Form
  /-- What follows the clauses. -/
  strays : List Form

namespace TryClauses

def isClause (f : Form) : Bool := f.isCallTo "catch" || f.isCallTo "finally"

def split (args : List Form) : TryClauses :=
  let clauses := args.dropWhile (!isClause ·)
  let rest := clauses.dropWhile (·.isCallTo "catch")
  { body := args.takeWhile (!isClause ·)
    catches := clauses.takeWhile (·.isCallTo "catch")
    finallies := rest.takeWhile (·.isCallTo "finally")
    strays := rest.dropWhile (·.isCallTo "finally") }

end TryClauses

def clauseArgs : Form → List Form
  | .list (_ :: args) _ => args
  | _ => []

/-- The class is looked up without any locals. -/
def analyzeCatch (recurse : Recurse) (outer : Env) (form : Form) : AnalyzerM Node := do
  match clauseArgs form with
  | cls :: written :: exprs =>
    match written with
    | .symbol name _ =>
      if name.isBindable then
        let env := outer.leaveTry
        let b : Binding := { name, kind := .catch }
        let cls ← recurse cls env.withoutLocals
        let body ← analyzeBody recurse exprs (env.bind b)
        return .of (.handler cls (.of (.binding b) written env.withoutLocals) body) form env
      else AnalyzerM.fail (.badBinding written) written
    | _ => AnalyzerM.fail (.badBinding written) written
  | args => AnalyzerM.wrongArity "catch" (.atLeast 2) form args

def analyzeTry (recurse : Recurse) (form : Form) (args : List Form) (env : Env) :
    AnalyzerM Node := do
  let clauses := TryClauses.split args
  match clauses.strays, clauses.finallies with
  | stray :: _, _ => AnalyzerM.fail .clauseOrder stray
  | [], _ :: second :: _ => AnalyzerM.fail .secondFinally second
  | [], finallies =>
    let body ← analyzeBody recurse clauses.body env.enterTry
    let catches ← clauses.catches.mapM (analyzeCatch recurse (env.enterTry.withContext .expr))
    let cleanup ← finallies.head?.mapM fun clause =>
      analyzeBody recurse (clauseArgs clause) (env.withContext .statement).leaveTry
    return .of (.tryBlock body catches cleanup) form env

end LispFront
