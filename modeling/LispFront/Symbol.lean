/-!
# Symbols, keywords and the names of vars

A name with an optional namespace. Names are taken as they stand: the unqualified symbol named
`a/b` and the symbol `b` of namespace `a` print alike and are different. Unqualified names come
before qualified ones; within a namespace, and between namespaces, texts decide.
-/

namespace LispFront

def qualifiedText (ns : Option String) (name : String) : String :=
  match ns with
  | none => name
  | some ns => ns ++ "/" ++ name

structure Symbol where
  ns : Option String
  name : String
deriving DecidableEq, Inhabited

structure Keyword where
  ns : Option String
  name : String
deriving DecidableEq, Inhabited

namespace Symbol

def plain (name : String) : Symbol := ⟨none, name⟩

def qualified (ns name : String) : Symbol := ⟨some ns, name⟩

def text (s : Symbol) : String := qualifiedText s.ns s.name

def cmp (a b : Symbol) : Ordering := (compare a.ns b.ns).then (compare a.name b.name)

def is (s : Symbol) (name : String) : Bool := s == plain name

/-- Names that a binding form may introduce: unqualified and without a dot. -/
def isBindable (s : Symbol) : Bool := s.ns.isNone && !s.name.toList.contains '.'

end Symbol

namespace Keyword

def plain (name : String) : Keyword := ⟨none, name⟩

def text (k : Keyword) : String := ":" ++ qualifiedText k.ns k.name

def cmp (a b : Keyword) : Ordering := (compare a.ns b.ns).then (compare a.name b.name)

def is (k : Keyword) (name : String) : Bool := k == plain name

end Keyword

/-- What makes a var the var it is: the symbol of its namespace and its own. -/
structure VarName where
  ns : Symbol
  name : Symbol
deriving DecidableEq, Inhabited

namespace VarName

def text (v : VarName) : String := "#'" ++ v.ns.text ++ "/" ++ v.name.text

def cmp (a b : VarName) : Ordering := (a.ns.cmp b.ns).then (a.name.cmp b.name)

def qualifiedSymbol (v : VarName) : Symbol := .qualified v.ns.name v.name.name

end VarName

end LispFront
