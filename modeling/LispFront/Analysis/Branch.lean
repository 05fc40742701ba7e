import LispFront.Analysis.Sequence

/-!
# Branching

The branches of a conditional stand where it stands; what is tested is used by it. A `case*` has its
branches in a map whose values pair the constant that is tested for with what is then evaluated.
-/

namespace LispFront

def analyzeIf (recurse : Recurse) (form : Form) (args : List Form) (env : Env) :
    AnalyzerM Node := do
  match args with
  | [test, onTrue] =>
    let test ← recurse test (env.withContext .expr)
    let onTrue ← recurse onTrue env
    return .of (.branch test onTrue (constant .nil env)) form env
  | [test, onTrue, onFalse] =>
    let test ← recurse test (env.withContext .expr)
    let onTrue ← recurse onTrue env
    let onFalse ← recurse onFalse env
    return .of (.branch test onTrue onFalse) form env
  | _ => AnalyzerM.wrongArity "if" (.between 2 3) form args

namespace Case

def number (argument : String) : Form → Except AnalysisFault Int64
  | .number n => .ok n
  | f => .error (.caseArgument argument "number" f)

def entries : Form → Except AnalysisFault FormMap
  | .map entries _ => .ok entries
  | f => .error (.caseArgument "case map" "map" f)

def switchKind (f : Form) : Except AnalysisFault SwitchKind :=
  if f == .key "compact" then .ok .compact
  else if f == .key "sparse" then .ok .sparse
  else .error (.unknownSwitch f)

def testKind (f : Form) : Except AnalysisFault TestKind :=
  if f == .key "int" then .ok .int
  else if f == .key "hash-identity" then .ok .hashIdentity
  else if f == .key "hash-equiv" then .ok .hashEquiv
  else .error (.unknownTest f)

def pair : Form → Except AnalysisFault (Form × Form)
  | .vector [test, body] _ => .ok (test, body)
  | f => .error (.caseArgument "case map entry" "[test then] pair" f)

def branches (recurse : Recurse) (form : Form) (env : Env) :
    List (Form × Form) → AnalyzerM (List Node)
  | [] => return []
  | (_, entry) :: rest => do
    let (test, body) ← AnalyzerM.check form (pair entry)
    let body ← recurse body env
    let branch := .of (.caseBranch [constant test (env.withContext .expr)] body) entry env
    return branch :: (← branches recurse form env rest)

end Case

/-- The last of the eight arguments, what needs no check, may be left out. -/
def analyzeCase (recurse : Recurse) (form : Form) (args : List Form) (env : Env) :
    AnalyzerM Node := do
  match args with
  | test :: shift :: mask :: default :: entries :: switch :: tests :: rest =>
    if rest.length ≤ 1 then
      let shift ← AnalyzerM.check form (Case.number "shift" shift)
      let mask ← AnalyzerM.check form (Case.number "mask" mask)
      let entries ← AnalyzerM.check form (Case.entries entries)
      let switch ← AnalyzerM.check form (Case.switchKind switch)
      let tests ← AnalyzerM.check form (Case.testKind tests)
      let test ← recurse test (env.withContext .expr)
      let branches ← Case.branches recurse form env entries
      let default ← recurse default env
      return .of (.case test branches default shift mask switch tests rest.head?) form env
    else AnalyzerM.fail (.caseArity args.length) form
  | _ => AnalyzerM.fail (.caseArity args.length) form

end LispFront
