import LispFront.Form.Basic
import LispFront.Text.CharName
import LispFront.Text.Escape

/-!
# The text of a form

Every form has one text, in which metadata does not show. Elements stand apart by a blank, the
entries of a map by a comma and a blank.
-/

namespace LispFront.Form

mutual

def text : Form → String
  | .nil => "nil"
  | .bool b => if b then "true" else "false"
  | .number n => toString n.toInt
  | .string s => Text.quoted s
  | .char c => "\\" ++ Text.charName c
  | .keyword k => k.text
  | .symbol s _ => s.text
  | .regex source => "#\"" ++ source ++ "\""
  | .list es _ => "(" ++ textElems es ++ ")"
  | .vector es _ => "[" ++ textElems es ++ "]"
  | .map es _ => "\x7b" ++ textEntries es ++ "\x7d"
  | .set es _ => "#\x7b" ++ textElems es ++ "\x7d"
  | .var v => v.text

def textElems : List Form → String
  | [] => ""
  | [e] => text e
  | e :: es => text e ++ " " ++ textElems es

def textEntries : List (Form × Form) → String
  | [] => ""
  | [(k, v)] => text k ++ " " ++ text v
  | (k, v) :: es => text k ++ " " ++ text v ++ ", " ++ textEntries es

end

end LispFront.Form
