import LispFront.Analysis.Fault
import LispFront.NameSupply
import LispFront.Tree.Env

/-!
# Analyzing

Analyses share a store, in which they define vars and draw names. What an analysis did so far stays
done when it fails. Names are looked up in a snapshot of the directory, which an analysis takes when
it starts and replaces when it has defined a var. The rules for single constructs are functions of
how their parts are analyzed; they are tied together in `LispFront.Analysis.Analyzer`.
-/

namespace LispFront

structure Store where
  directory : Directory
  names : NameSupply

/-- The shared store, and what a single call of an analyzer keeps for itself. -/
structure Analysis extends Store where
  /-- The snapshot in which names are looked up. -/
  view : Directory
  /-- How many forms are being analyzed around the present one. -/
  depth : Nat

namespace Analysis

def start (s : Store) : Analysis := { s with view := s.directory, depth := 0 }

def enter (s : Analysis) : Analysis := { s with depth := s.depth + 1 }

def leave (s : Analysis) : Analysis := { s with depth := s.depth - 1 }

end Analysis

/-- What a client sees of analyses: failing leaves the store as it is at that moment. -/
abbrev AnalysisM := ExceptT AnalysisError (StateM Store)

abbrev AnalyzerM := ExceptT AnalysisError (StateM Analysis)

/-- How the parts of a construct are analyzed. -/
abbrev Recurse := Form → Env → AnalyzerM Node

namespace AnalyzerM

def fail (fault : AnalysisFault) (form : Form) : AnalyzerM α := throw (.of fault form)

/-- Errors without a location are located at `form`. -/
def within (form : Form) (x : AnalyzerM α) : AnalyzerM α := ExceptT.adapt (·.within form) x

def check (form : Form) : Except AnalysisFault α → AnalyzerM α
  | .ok a => pure a
  | .error fault => fail fault form

def wrongArity (op : String) (expected : Arity) (form : Form) (args : List Form) : AnalyzerM α :=
  fail (.wrongArity op expected args.length) form

def drawLoopId : AnalyzerM Symbol := do
  let s ← get
  set { s with names := s.names.advance }
  return s.names.peek "loop_"

def directory : AnalyzerM Directory := return (← get).view

def refresh : AnalyzerM Unit := modify fun s => { s with view := s.directory }

/-- Interns a var in the shared directory and looks at that anew, unless the var is refused. -/
def intern (ns name : Symbol) (metadata : FormMap) (form : Form) : AnalyzerM Var := do
  let s ← get
  let (answer, directory) := s.directory.tryIntern ns name metadata
  set { s with directory }
  match answer with
  | .ok v =>
    refresh
    return v
  | .error e => fail (.directory e) form

/-- One level deeper, and back whether it fails or not. At the limit there is no way down. -/
def nested (limit : Nat) (form : Form) (x : AnalyzerM α) : AnalyzerM α := do
  if limit ≤ (← get).depth then fail (.tooDeep limit) form
  else
    modify (·.enter)
    let outcome ← ExceptT.lift x.run
    modify (·.leave)
    MonadExcept.ofExcept outcome

end AnalyzerM

def analyzeAll (recurse : Recurse) (forms : List Form) (env : Env) : AnalyzerM (List Node) :=
  forms.mapM (recurse · env)

end LispFront
