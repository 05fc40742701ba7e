/-!
# Escapes inside string literals

Five characters are written with a backslash, all others as they are. Reading undoes exactly these
five; a backslash before anything else stands for itself.
-/

namespace LispFront.Text

def escape : List Char → List Char
  | [] => []
  | '\\' :: cs => '\\' :: '\\' :: escape cs
  | '\n' :: cs => '\\' :: 'n' :: escape cs
  | '\t' :: cs => '\\' :: 't' :: escape cs
  | '\r' :: cs => '\\' :: 'r' :: escape cs
  | '"' :: cs => '\\' :: '"' :: escape cs
  | c :: cs => c :: escape cs

def unescape : List Char → List Char
  | [] => []
  | '\\' :: '\\' :: cs => '\\' :: unescape cs
  | '\\' :: 'n' :: cs => '\n' :: unescape cs
  | '\\' :: 't' :: cs => '\t' :: unescape cs
  | '\\' :: 'r' :: cs => '\r' :: unescape cs
  | '\\' :: '"' :: cs => '"' :: unescape cs
  | c :: cs => c :: unescape cs

def quoted (s : String) : String := "\"" ++ String.ofList (escape s.toList) ++ "\""

theorem unescape_escape (cs : List Char) : unescape (escape cs) = cs := by
  fun_induction escape cs <;> simp_all [unescape]

end LispFront.Text
