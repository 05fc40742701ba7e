import LispFront.Tree.Basic

/-!
# Environments

Each operation makes a new environment that differs from the given one in what its name says.
-/

namespace LispFront.Env

def empty (ns : Symbol) : Env where
  locals := []
  context := .expr
  ns
  loopId := none
  loopArity := none
  inTry := false
  once := false
  topLevel := false
  self := none

def local? (e : Env) (name : Symbol) : Option Binding :=
  Sorted.find? (fun b => name.cmp b.name) e.locals

def withContext (e : Env) (context : Context) : Env := { e with context }

def bind (e : Env) (b : Binding) : Env :=
  { e with locals := Sorted.insert (fun a b => a.name.cmp b.name) b e.locals }

def bindMany (e : Env) (bs : List Binding) : Env := bs.foldl bind e

def withoutLocals (e : Env) : Env := { e with locals := [] }

def withLoopId (e : Env) (id : Symbol) : Env := { e with loopId := some id }

def withLoop (e : Env) (id : Symbol) (arity : Nat) : Env :=
  { e with loopId := some id, loopArity := some arity }

def enterTry (e : Env) : Env := { e with inTry := true }

def leaveTry (e : Env) : Env := { e with inTry := false }

def withOnce (e : Env) (once : Bool) : Env := { e with once }

def atTopLevel (e : Env) : Env := { e with topLevel := true }

def withSelf (e : Env) (b : Binding) : Env := { e with self := some b }

def withoutSelf (e : Env) : Env := { e with self := none }

end LispFront.Env
