import LispFront.Form.Basic

/-!
# What forms feed to a hasher

A hasher takes words one after the other and makes a number of them. A form feeds the number of its
kind and then what it holds: texts as a whole, an optional text after whether there is one, lists
and vectors their length and elements, maps and sets their size and sorted entries. Metadata feeds
nothing.
-/

namespace LispFront

inductive HashWord where
  /-- Which of the alternatives of a type a value is. -/
  | alternative (n : Nat)
  | size (n : Nat)
  | bool (b : Bool)
  | number (n : Int64)
  | char (c : Char)
  | text (s : String)
deriving DecidableEq, Repr

def qualifiedFed (ns : Option String) (name : String) : List HashWord :=
  match ns with
  | none => [.alternative 0, .text name]
  | some ns => [.alternative 1, .text ns, .text name]

def Symbol.fed (s : Symbol) : List HashWord := qualifiedFed s.ns s.name

def Keyword.fed (k : Keyword) : List HashWord := qualifiedFed k.ns k.name

def VarName.fed (v : VarName) : List HashWord := v.ns.fed ++ v.name.fed

namespace Form

/-- Nothing: forms that differ in metadata only are equal. -/
def metadataFed (_ : List (Form × Form)) : List HashWord := []

mutual

def fed : Form → List HashWord
  | .nil => [.alternative 0]
  | .bool b => [.alternative 1, .bool b]
  | .number n => [.alternative 2, .number n]
  | .string s => [.alternative 3, .text s]
  | .char c => [.alternative 4, .char c]
  | .keyword k => .alternative 5 :: k.fed
  | .symbol s m => .alternative 6 :: (s.fed ++ metadataFed m)
  | .regex source => [.alternative 7, .text source]
  | .list es m => .alternative 8 :: .size es.length :: (elemsFed es ++ metadataFed m)
  | .vector es m => .alternative 9 :: .size es.length :: (elemsFed es ++ metadataFed m)
  | .map es m => .alternative 10 :: .size es.length :: (entriesFed es ++ metadataFed m)
  | .set es m => .alternative 11 :: .size es.length :: (elemsFed es ++ metadataFed m)
  | .var v => .alternative 12 :: v.fed

def elemsFed : List Form → List HashWord
  | [] => []
  | e :: es => fed e ++ elemsFed es

def entriesFed : List (Form × Form) → List HashWord
  | [] => []
  | (k, v) :: es => fed k ++ fed v ++ entriesFed es

end

end Form

structure Hasher where
  State : Type
  start : State
  write : State → HashWord → State
  finish : State → UInt64

def Hasher.hash (h : Hasher) (f : Form) : UInt64 := h.finish (f.fed.foldl h.write h.start)

end LispFront
