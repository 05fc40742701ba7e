import LispFront.Analysis.Binder
import LispFront.Analysis.Branch
import LispFront.Analysis.Definition
import LispFront.Analysis.Exception
import LispFront.Analysis.Function
import LispFront.Analysis.Interop

/-!
# The analyzer

A form is expanded until the expander leaves it alone, and then analyzed by its kind. Analysis goes
down a bounded number of levels, an expansion counting as one, so it ends whatever the expander
does.
-/

namespace LispFront

inductive SpecialForm where
  | sequence | branch | new | quote | assign | tryBlock | throw | define | dot | letBlock | letfn
  | loop | recur | fn | var | case
deriving DecidableEq, Repr

namespace SpecialForm

def all : List SpecialForm :=
  [.sequence, .branch, .new, .quote, .assign, .tryBlock, .throw, .define, .dot, .letBlock, .letfn,
    .loop, .recur, .fn, .var, .case]

def name : SpecialForm → String
  | .sequence => "do"
  | .branch => "if"
  | .new => "new"
  | .quote => "quote"
  | .assign => "set!"
  | .tryBlock => "try"
  | .throw => "throw"
  | .define => "def"
  | .dot => "."
  | .letBlock => "let*"
  | .letfn => "letfn*"
  | .loop => "loop*"
  | .recur => "recur"
  | .fn => "fn*"
  | .var => "var"
  | .case => "case*"

def ofSymbol? (s : Symbol) : Option SpecialForm := all.find? fun k => s.is k.name

def ofHead? : Form → Option SpecialForm
  | .symbol s _ => ofSymbol? s
  | _ => none

end SpecialForm

structure Analyzer where
  /-- The namespace in which forms are analyzed unless another environment is given. -/
  home : Symbol
  /-- One step of expansion; a form that is no call of a macro is its own expansion. -/
  expand : Form → Env → Except AnalysisError Form := fun f _ => .ok f
  /-- Whether a name that nothing else has must be a known class. -/
  checkClasses : Bool := true
  maxDepth : Nat := 256

namespace Analyzer

def prepare (a : Analyzer) (d : Directory) : Directory := d.create a.home

def rootEnv (a : Analyzer) : Env := (Env.empty a.home).atTopLevel

def expansion (a : Analyzer) (form : Form) (env : Env) : AnalyzerM Form :=
  match a.expand form env with
  | .ok f => pure f
  | .error e => throw e

def analyzeName (a : Analyzer) (form : Form) (s : Symbol) (env : Env) : AnalyzerM Node := do
  match env.local? s with
  | some b => return .of (.localRef b.withoutInit) form env
  | none =>
    let directory ← AnalyzerM.directory
    match directory.resolve? env.ns s with
    | some v => return .of (.varRef v) form env
    | none =>
      match s.ns with
      | some cls => return .of (.hostForm (.plain cls) (.plain s.name)) form env
      | none =>
        if !a.checkClasses || directory.isClass s then return .of (.classRef s) form env
        else AnalyzerM.fail (.unresolved s) form

def analyzeExpansion (recurse : Recurse) (form expansion : Form) (env : Env) : AnalyzerM Node :=
  return (← recurse expansion env).addExpandedFrom form

def analyzeSymbol (a : Analyzer) (recurse : Recurse) (form : Form) (s : Symbol) (env : Env) :
    AnalyzerM Node := do
  let expansion ← a.expansion form env
  if expansion == form then a.analyzeName form s env
  else analyzeExpansion recurse form expansion env

def analyzeInvoke (recurse : Recurse) (form head : Form) (args : List Form) (env : Env) :
    AnalyzerM Node := do
  let fn ← recurse head (env.withContext .expr)
  let args ← analyzeAll recurse args (env.withContext .expr)
  return .of (.invoke fn args form.semanticMetadata) form env

def analyzeCall (recurse : Recurse) (form head : Form) (args : List Form) (env : Env) :
    AnalyzerM Node :=
  match SpecialForm.ofHead? head with
  | none => analyzeInvoke recurse form head args env
  | some .sequence => analyzeSequence recurse form args env false
  | some .branch => analyzeIf recurse form args env
  | some .new => analyzeNew recurse form args env
  | some .quote => analyzeQuote form args env
  | some .assign => analyzeAssign recurse form args env
  | some .tryBlock => analyzeTry recurse form args env
  | some .throw => analyzeThrow recurse form args env
  | some .define => analyzeDef recurse form args env
  | some .dot => analyzeDot recurse form args env
  | some .letBlock => analyzeLet recurse form args env
  | some .letfn => analyzeLetfn recurse form args env
  | some .loop => analyzeLoop recurse form args env
  | some .recur => analyzeRecur recurse form args env
  | some .fn => analyzeFn recurse form head args env
  | some .var => analyzeVar form args env
  | some .case => analyzeCase recurse form args env

/-- Errors below a list are located at it if they have no location. -/
def analyzeList (a : Analyzer) (recurse : Recurse) (form head : Form) (args : List Form)
    (env : Env) : AnalyzerM Node := do
  match head with
  | .nil => AnalyzerM.fail .callOfNil form
  | _ =>
    let expansion ← a.expansion form env
    AnalyzerM.within form <|
      if expansion == form then analyzeCall recurse form head args env
      else analyzeExpansion recurse form expansion env

def analyzeLevel (a : Analyzer) (recurse : Recurse) (form : Form) (env : Env) : AnalyzerM Node :=
  match form with
  | .symbol s _ => a.analyzeSymbol recurse form s env
  | .list (head :: args) _ => a.analyzeList recurse form head args env
  | .vector items _ => analyzeItems recurse .vector form items env
  | .map entries _ => analyzeMap recurse form entries env
  | .set items _ => analyzeItems recurse .set form items env
  | _ => return constant form env

/-- Analyzes a form with so much fuel, which the depth limit keeps from running out
(`run_analyzeForm_eq`). -/
def analyzeForm (a : Analyzer) : Nat → Recurse
  | 0 => fun form _ => AnalyzerM.fail (.tooDeep a.maxDepth) form
  | fuel + 1 => fun form env =>
    AnalyzerM.nested a.maxDepth form (a.analyzeLevel (a.analyzeForm fuel) form env)

/-- A call of the analyzer on its own: it starts with a fresh snapshot, outside of all forms. -/
def analyzeIn (a : Analyzer) (form : Form) (env : Env) : AnalysisM Node := fun s =>
  let (outcome, s) := (a.analyzeForm (a.maxDepth + 1) form env).run.run (.start s)
  (outcome, s.toStore)

def analyze (a : Analyzer) (form : Form) : AnalysisM Node := a.analyzeIn form a.rootEnv

end Analyzer

end LispFront
