import LispFront.Directory

/-!
# Analyzed trees

A node is an operator with its operands, the form it stands for and the environment that form was
analyzed in. Environments are values: what a node has captured never changes. A binding holds the
node of its initial value but no environment of its own, so environments nest as deep as
initial values do and no deeper.
-/

namespace LispFront

/-- Where the value of an expression goes. -/
inductive Context where
  /-- It is used by the expression around it. -/
  | expr
  /-- It is the result of a function or loop. -/
  | ret
  /-- It is dropped. -/
  | statement
deriving DecidableEq, Repr

def Context.text : Context → String
  | .expr => "ctx/expr"
  | .ret => "ctx/return"
  | .statement => "ctx/statement"

inductive LocalKind where
  | «let» | loop | letfn | fn | arg | «catch»
deriving DecidableEq, Repr

def LocalKind.text : LocalKind → String
  | .let => "let"
  | .loop => "loop"
  | .letfn => "letfn"
  | .fn => "fn"
  | .arg => "arg"
  | .catch => "catch"

inductive SwitchKind where
  | compact | sparse
deriving DecidableEq, Repr

inductive TestKind where
  | int | hashIdentity | hashEquiv
deriving DecidableEq, Repr

mutual

structure Binding where
  name : Symbol
  kind : LocalKind
  init : Option Node := none
  argId : Option Nat := none
  variadic : Bool := false
  assignable : Bool := false

structure Env where
  /-- Sorted by name. -/
  locals : List Binding
  context : Context
  ns : Symbol
  /-- What a `recur` goes back to. -/
  loopId : Option Symbol
  /-- How many values a `recur` takes. -/
  loopArity : Option Nat
  inTry : Bool
  once : Bool
  topLevel : Bool
  /-- The name of the function whose methods are analyzed. -/
  self : Option Binding

inductive Op where
  | const (kind : ConstKind) (val : Form) (metadata : Option Node)
  | vector (items : List Node)
  | map (keys vals : List Node)
  | set (items : List Node)
  | localRef (binding : Binding)
  | varRef (var : Var)
  | theVar (var : Var)
  /-- A qualified name that no var has. -/
  | hostForm (cls field : Symbol)
  | classRef (cls : Symbol)
  | invoke (fn : Node) (args : List Node) (metadata : FormMap)
  /-- Statements and a result; `body` if it is the body of a construct and not written. -/
  | sequence (statements : List Node) (ret : Node) (body : Bool)
  | branch (test onTrue onFalse : Node)
  | new (cls : Node) (args : List Node)
  | quote (expr : Node)
  | assign (target val : Node)
  | tryBlock (body : Node) (catches : List Node) (cleanup : Option Node)
  | handler (cls binding body : Node)
  | throw (exception : Node)
  | define (var : Var) (doc : Option String) (metadata init : Option Node)
  | hostCall (target : Node) (method : Symbol) (args : List Node)
  | hostField (target : Node) (field : Symbol)
  /-- A member without arguments: a method or a field. -/
  | hostMember (target : Node) (member : Symbol)
  | letBlock (bindings : List Node) (body : Node)
  | letfnBlock (bindings : List Node) (body : Node)
  | loop (id : Symbol) (bindings : List Node) (body : Node)
  | recur (id : Symbol) (exprs : List Node)
  | fn (self : Option Node) (methods : List Node) (variadic : Bool) (maxFixed : Option Nat)
      (once : Bool)
  | method (id : Symbol) (params : List Node) (fixed : Nat) (variadic : Bool) (body : Node)
      (self : Option Binding)
  | binding (binding : Binding)
  | withMetadata (metadata expr : Node)
  | case (test : Node) (branches : List Node) (default : Node) (shift mask : Int64)
      (switch : SwitchKind) (tests : TestKind) (skipCheck : Option Form)
  | caseBranch (tests : List Node) (body : Node)

structure Node where
  op : Op
  form : Form
  env : Env
  /-- The forms this one was expanded from, the outermost first. -/
  expandedFrom : List Form := []

end

namespace Op

def name : Op → String
  | const .. => "const"
  | vector .. => "vector"
  | map .. => "map"
  | set .. => "set"
  | localRef .. => "local"
  | varRef .. => "var"
  | theVar .. => "the-var"
  | hostForm .. => "maybe-host-form"
  | classRef .. => "maybe-class"
  | invoke .. => "invoke"
  | sequence .. => "do"
  | branch .. => "if"
  | new .. => "new"
  | quote .. => "quote"
  | assign .. => "set!"
  | tryBlock .. => "try"
  | handler .. => "catch"
  | throw .. => "throw"
  | define .. => "def"
  | hostCall .. => "host-call"
  | hostField .. => "host-field"
  | hostMember .. => "host-interop"
  | letBlock .. => "let"
  | letfnBlock .. => "letfn"
  | loop .. => "loop"
  | recur .. => "recur"
  | fn .. => "fn"
  | method .. => "fn-method"
  | binding .. => "binding"
  | withMetadata .. => "with-meta"
  | case .. => "case"
  | caseBranch .. => "case-node"

end Op

namespace Binding

def withoutInit (b : Binding) : Binding := { b with init := none }

end Binding

namespace Node

def of (op : Op) (form : Form) (env : Env) : Node := { op, form, env }

def addExpandedFrom (n : Node) (f : Form) : Node := { n with expandedFrom := f :: n.expandedFrom }

def isLiteral (n : Node) : Bool :=
  match n.op with
  | .const .. | .quote _ => true
  | _ => false

def isAssignable (n : Node) : Bool :=
  match n.op with
  | .localRef b => b.assignable
  | .varRef v => FormMap.find? v.metadata (.key "dynamic") == some (.bool true)
  | .hostField .. | .hostMember .. | .hostForm .. => true
  | _ => false

def isBody (n : Node) : Bool :=
  match n.op with
  | .sequence _ _ body => body
  | _ => false

end Node

end LispFront
