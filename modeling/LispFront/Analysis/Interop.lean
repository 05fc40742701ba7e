import LispFront.Analysis.Sequence

/-!
# Objects of the host

Creating objects, assigning, and access to members. A namespace on a member's name is dropped; a
dash in front of a member without arguments makes it a field.
-/

namespace LispFront

def analyzeNew (recurse : Recurse) (form : Form) (args : List Form) (env : Env) :
    AnalyzerM Node := do
  match args with
  | cls :: args =>
    let cls ← recurse cls env.withoutLocals
    let args ← analyzeAll recurse args (env.withContext .expr)
    return .of (.new cls args) form env
  | [] => AnalyzerM.wrongArity "new" (.atLeast 1) form args

def analyzeAssign (recurse : Recurse) (form : Form) (args : List Form) (env : Env) :
    AnalyzerM Node := do
  match args with
  | [target, val] =>
    let target ← recurse target (env.withContext .expr)
    let val ← recurse val (env.withContext .expr)
    return .of (.assign target val) form env
  | _ => AnalyzerM.wrongArity "set!" (.exactly 2) form args

inductive Member where
  | field (name : Symbol)
  | access (name : Symbol)
  | call (name : Symbol) (args : List Form)

def Member.ofForms (member : Form) (args : List Form) : Except AnalysisFault Member :=
  match member, args with
  | .symbol s _, [] =>
    match s.name.toList with
    | ['-'] => .error (.memberNotSymbol member)
    | '-' :: cs => .ok (.field (.plain (String.ofList cs)))
    | _ => .ok (.access (.plain s.name))
  | .symbol s _, args => .ok (.call (.plain s.name) args)
  | .list (.symbol s _ :: args) _, [] => .ok (.call (.plain s.name) args)
  | _, _ => .error (.memberNotSymbol member)

def analyzeDot (recurse : Recurse) (form : Form) (args : List Form) (env : Env) :
    AnalyzerM Node := do
  match args with
  | target :: member :: rest =>
    let target ← recurse target (env.withContext .expr)
    match ← AnalyzerM.check form (Member.ofForms member rest) with
    | .field name => return .of (.hostField target name) form env
    | .access name => return .of (.hostMember target name) form env
    | .call name args =>
      let args ← analyzeAll recurse args (env.withContext .expr)
      return .of (.hostCall target name args) form env
  | _ => AnalyzerM.wrongArity "." (.atLeast 2) form args

end LispFront
