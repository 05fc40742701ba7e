import LispFront.Symbol

/-!
# Forms

What the reader produces and the analyzer consumes. Symbols and the four collections carry
metadata: a map from forms to forms that says something about the form and is no part of its value;
the empty map means that there is none. The entries of a map, the elements of a set and metadata are
lists sorted by the order of forms (`LispFront.Form.Order`), a key occurring once.
-/

namespace LispFront

inductive Form where
  | nil
  | bool (b : Bool)
  | number (n : Int64)
  | string (s : String)
  | char (c : Char)
  | keyword (k : Keyword)
  | symbol (s : Symbol) (metadata : List (Form × Form))
  /-- A pattern, kept as its source text. -/
  | regex (source : String)
  | list (elems : List Form) (metadata : List (Form × Form))
  | vector (elems : List Form) (metadata : List (Form × Form))
  | map (entries : List (Form × Form)) (metadata : List (Form × Form))
  | set (elems : List Form) (metadata : List (Form × Form))
  | var (v : VarName)
deriving Inhabited

/-- A sorted list of entries, one for each key. -/
abbrev FormMap := List (Form × Form)

abbrev FormSet := List Form

namespace Form

def sym (name : String) : Form := .symbol (.plain name) []

def key (name : String) : Form := .keyword (.plain name)

def call (name : String) (args : List Form) : Form := .list (.sym name :: args) []

def isCallTo (name : String) : Form → Bool
  | .list (.symbol s _ :: _) _ => s.is name
  | _ => false

end Form

inductive ConstKind where
  | nil | bool | keyword | symbol | string | number | char | regex | vector | map | set | seq | var
deriving DecidableEq, Repr

namespace ConstKind

def of : Form → ConstKind
  | .nil => nil
  | .bool _ => bool
  | .number _ => number
  | .string _ => string
  | .char _ => char
  | .keyword _ => keyword
  | .symbol .. => symbol
  | .regex _ => regex
  | .list .. => seq
  | .vector .. => vector
  | .map .. => map
  | .set .. => set
  | .var _ => var

def text : ConstKind → String
  | nil => "nil"
  | bool => "bool"
  | keyword => "keyword"
  | symbol => "symbol"
  | string => "string"
  | number => "number"
  | char => "char"
  | regex => "regex"
  | vector => "vector"
  | map => "map"
  | set => "set"
  | seq => "seq"
  | var => "var"

end ConstKind

end LispFront
