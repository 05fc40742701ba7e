import LispFront.Directory
import LispFront.Form.Print

/-!
# Why a form can not be analyzed

A fault is the cause. An error adds the form to blame and, if it is known, where that form was read:
the form's own location or else that of an enclosing form.
-/

namespace LispFront

inductive Arity where
  | exactly (n : Nat)
  | atLeast (n : Nat)
  | between (min max : Nat)
deriving DecidableEq, Repr

namespace Arity

def admits : Arity → Nat → Bool
  | .exactly n, k => k == n
  | .atLeast n, k => n ≤ k
  | .between min max, k => min ≤ k && k ≤ max

def text : Arity → String
  | .exactly n => toString n
  | .atLeast n => "at least " ++ toString n
  | .between min max => toString min ++ " to " ++ toString max

end Arity

inductive AnalysisFault where
  | wrongArity (op : String) (expected : Arity) (realized : Nat)
  | recurOutsideTail
  | recurAcrossTry
  | recurArity (expected realized : Nat)
  | callOfNil
  | unresolved (s : Symbol)
  | varNotFound (f : Form)
  | memberNotSymbol (f : Form)
  | defNeedsSymbol (f : Form)
  | qualifiedDef (s : Symbol)
  | docNotString (f : Form)
  | expansion (message : String)
  | tooDeep (limit : Nat)
  | directory (e : DirectoryError)
  | badBinding (f : Form)
  | missingBindings (op : String)
  | bindingsNotVector (op : String) (f : Form)
  | bindingsNotPaired (op : String) (count : Nat)
  | duplicateLetfn (s : Symbol)
  | clauseOrder
  | secondFinally
  | methodNotList (f : Form)
  | paramsNotVector (f : Form)
  | badParam (f : Form)
  | secondAmpersand
  | variadicCount (count : Nat)
  | secondVariadic
  | duplicateArity (arity : Nat)
  | fixedExceedsVariadic (fixed variadic : Nat)
  | caseArity (count : Nat)
  | caseArgument (argument expected : String) (f : Form)
  | unknownSwitch (f : Form)
  | unknownTest (f : Form)

def AnalysisFault.message : AnalysisFault → String
  | .wrongArity op expected realized =>
    "wrong number of args to " ++ op ++ ", expected: " ++ expected.text ++ ", had: " ++
      toString realized
  | .recurOutsideTail => "can only recur from tail position"
  | .recurAcrossTry => "cannot recur across try"
  | .recurArity expected realized =>
    "mismatched argument count to recur, expected: " ++ toString expected ++ " args, had: " ++
      toString realized
  | .callOfNil => "can't call nil"
  | .unresolved s => "unable to resolve symbol: " ++ s.text ++ " in this context"
  | .varNotFound f => "var not found: " ++ f.text
  | .memberNotSymbol f => "method name must be a symbol, had: " ++ f.text
  | .defNeedsSymbol f => "first argument to def must be a symbol, had: " ++ f.text
  | .qualifiedDef s => "can't def namespace-qualified symbol: " ++ s.text
  | .docNotString f => "doc must be a string, had: " ++ f.text
  | .expansion message => "error during macroexpansion: " ++ message
  | .tooDeep limit => "forms nested deeper than " ++ toString limit ++ " levels"
  | .directory e => e.message
  | .badBinding f => "bad binding form: " ++ f.text
  | .missingBindings op => op ++ " requires a binding vector and a body"
  | .bindingsNotVector op f => op ++ " requires a vector for its bindings, had: " ++ f.text
  | .bindingsNotPaired op count =>
    op ++ " requires an even number of forms in binding vector, had: " ++ toString count
  | .duplicateLetfn s => "duplicate name in letfn* bindings: " ++ s.text
  | .clauseOrder => "only catch or finally clause can follow catch in try expression"
  | .secondFinally => "only one finally clause allowed in try expression"
  | .methodNotList f => "invalid fn* method, expected a list but had: " ++ f.text
  | .paramsNotVector f => "parameter declaration should be a vector, had: " ++ f.text
  | .badParam f => "params must be valid binding symbols, had: " ++ f.text
  | .secondAmpersand => "can't have more than 1 variadic param"
  | .variadicCount count =>
    "variadic method must have exactly 1 param after `&`, had: " ++ toString count
  | .secondVariadic => "can't have more than 1 variadic overload"
  | .duplicateArity arity =>
    "can't have 2 or more overloads with the same arity: " ++ toString arity
  | .fixedExceedsVariadic fixed variadic =>
    "can't have fixed arity overload with more params (" ++ toString fixed ++
      ") than variadic overload (" ++ toString variadic ++ ")"
  | .caseArity count => "case*: expected 7 or 8 arguments, had: " ++ toString count
  | .caseArgument argument expected f =>
    "case*: " ++ argument ++ " must be a " ++ expected ++ ", had: " ++ f.text
  | .unknownSwitch f => "case*: unexpected switch type: " ++ f.text
  | .unknownTest f => "case*: unexpected test type: " ++ f.text

structure AnalysisError where
  fault : AnalysisFault
  form : Form
  location : Option SourceLocation

namespace AnalysisError

def of (fault : AnalysisFault) (form : Form) : AnalysisError :=
  ⟨fault, form, SourceLocation.of? form⟩

def within (f : Form) (e : AnalysisError) : AnalysisError :=
  { e with location := e.location.or (SourceLocation.of? f) }

def message (e : AnalysisError) : String :=
  (e.location.map (·.text ++ ": ")).getD "" ++ e.fault.message ++ " in form " ++ e.form.text

end AnalysisError

end LispFront
