import LispFront.Text.Alphanumeric

/-!
# Character classes of the notation

Blanks separate tokens and a comma is one of them. A token starts with a letter, a digit or one of
fifteen signs and goes on until a blank, a comment or a delimiter.
-/

namespace LispFront.Text

def isBlank (c : Char) : Bool :=
  c == ',' ||
    [(0x9, 0xd), (0x20, 0x20), (0x85, 0x85), (0xa0, 0xa0), (0x1680, 0x1680), (0x2000, 0x200a),
      (0x2028, 0x2029), (0x202f, 0x202f), (0x205f, 0x205f), (0x3000, 0x3000)].any
      fun i => i.1 ≤ c.toNat && c.toNat ≤ i.2

def isSign (c : Char) : Bool :=
  ['*', '+', '!', '-', '_', '?', '<', '>', '=', '/', '&', ':', '$', '.', '%'].contains c

def isDelimiter (c : Char) : Bool :=
  ['(', ')', '[', ']', '{', '}', '"', '@', '^', '`', '~', '\\'].contains c

def startsToken (c : Char) : Bool := isSign c || isAlphanumeric c

def continuesToken (c : Char) : Bool := !isBlank c && c != ';' && !isDelimiter c

end LispFront.Text
