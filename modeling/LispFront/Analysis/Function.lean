import LispFront.Analysis.Sequence

/-!
# Functions

A function has methods of different arities, at most one of them variadic, and none that takes more
fixed parameters than the variadic one. Each method is what a `recur` in its body goes back to, the
variadic parameter counting as one.
-/

namespace LispFront

def isAmpersand : Form → Bool
  | .symbol s _ => s.is "&"
  | _ => false

structure Params where
  fixed : List Form
  variadic : Option Form

namespace Params

def all (p : Params) : List Form := p.fixed ++ p.variadic.toList

/-- Behind the ampersand stands one parameter. -/
def split (elems : List Form) : Except AnalysisFault Params :=
  let fixed := elems.takeWhile (!isAmpersand ·)
  match elems.dropWhile (!isAmpersand ·) with
  | [] => .ok ⟨fixed, none⟩
  | _ :: rest =>
    if rest.any isAmpersand then .error .secondAmpersand
    else match rest with
      | [p] => .ok ⟨fixed, some p⟩
      | _ => .error (.variadicCount rest.length)

def bindings (variadic : Bool) (i : Nat) : List Form → Except AnalysisFault (List Binding)
  | [] => .ok []
  | p :: ps =>
    match p with
    | .symbol name _ =>
      if name.isBindable then do
        let rest ← bindings variadic (i + 1) ps
        .ok ({ name, kind := .arg, argId := some i, variadic := variadic && ps.isEmpty } :: rest)
      else .error (.badParam p)
    | _ => .error (.badParam p)

end Params

def analyzeMethod (recurse : Recurse) (env : Env) (form : Form) : AnalyzerM Node := do
  match form with
  | .list (.vector elems _ :: exprs) _ =>
    let params ← AnalyzerM.check form (Params.split elems)
    let bindings ← AnalyzerM.check form (Params.bindings params.variadic.isSome 0 params.all)
    let inner := env.withoutSelf
    let id ← AnalyzerM.drawLoopId
    let nodes := (params.all.zip bindings).map fun (p, b) => Node.of (.binding b) p inner
    let body ← analyzeBody recurse exprs
      (((inner.bindMany bindings).withContext .ret).withLoop id nodes.length)
    return .of (.method id nodes params.fixed.length params.variadic.isSome body env.self) form
      inner
  | .list (f :: _) _ => AnalyzerM.fail (.paramsNotVector f) form
  | .list [] _ => AnalyzerM.fail (.paramsNotVector .nil) form
  | f => AnalyzerM.fail (.methodNotList f) form

/-- The number of fixed parameters of a method, and whether it is variadic. -/
def Node.methodArity (n : Node) : Nat × Bool :=
  match n.op with
  | .method _ _ fixed variadic .. => (fixed, variadic)
  | _ => (0, false)

namespace Overloads

def firstTwin? : List Nat → Option Nat
  | a :: b :: l => if a = b then some a else firstTwin? (b :: l)
  | _ => none

/-- Checks the arities of the methods. Gives whether there is a variadic one and the largest number
of parameters of the others. -/
def check (arities : List (Nat × Bool)) : Except AnalysisFault (Bool × Option Nat) :=
  let variadic := (arities.filter (·.2)).map (·.1)
  let fixed := ((arities.filter (!·.2)).map (·.1)).mergeSort
  if 1 < variadic.length then .error .secondVariadic
  else match firstTwin? fixed with
    | some arity => .error (.duplicateArity arity)
    | none =>
      match fixed.getLast?, variadic.head? with
      | some f, some v =>
        if v < f then .error (.fixedExceedsVariadic f v) else .ok (true, some f)
      | max, v => .ok (v.isSome, max)

end Overloads

def functionName (form : Form) : List Form → AnalyzerM (Option (Form × Binding) × List Form)
  | .symbol name m :: rest =>
    if name.isBindable then return (some (.symbol name m, { name, kind := .fn }), rest)
    else AnalyzerM.fail (.badBinding (.symbol name m)) form
  | args => return (none, args)

/-- A method without a list around it is the only one. -/
def methodForms : List Form → List Form
  | .vector params m :: body => [.list (.vector params m :: body) []]
  | forms => forms

/-- A function whose symbol `fn*` is marked `:once` is called once at most. -/
def analyzeFn (recurse : Recurse) (form head : Form) (args : List Form) (env : Env) :
    AnalyzerM Node := do
  let once := head.metadataValue? "once" == some (.bool true)
  let (self, rest) ← functionName form args
  let named := match self with
    | some (_, b) => (env.bind b).withSelf b
    | none => env
  let methods ← (methodForms rest).mapM (analyzeMethod recurse (named.leaveTry.withOnce once))
  let (variadic, maxFixed) ← AnalyzerM.check form (Overloads.check (methods.map (·.methodArity)))
  let self := self.map fun (written, b) => Node.of (.binding b) written env
  wrapMetadata recurse (.of (.fn self methods variadic maxFixed once) form env)

end LispFront
