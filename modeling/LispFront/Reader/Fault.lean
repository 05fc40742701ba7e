import LispFront.Form.Print
import LispFront.Text.Integer

/-!
# Why a text can not be read

A fault is the cause; a read error adds the byte offset it is blamed on. The rest of the text from
that offset is the error's context.
-/

namespace LispFront

inductive ReadFault where
  | badNumber (fault : Text.IntegerFault)
  | unexpected (c : Char)
  | incomplete
  | missingNamespace
  | invalidNamespace
  | invalidIdentifier
  | unclosedString
  | unbalanced (closing : Char)
  | unpairedMap
  | unknownDispatch (c : Char)
  | varNeedsSymbol (found : Form)
  | unknownCharName (name : String)
  | invalidMetadata (found : Form)
  | invalidMetadataTarget (target : Form)

def ReadFault.message : ReadFault → String
  | .badNumber fault => "error parsing number: " ++ fault.message
  | .unexpected c => "unexpected input `" ++ String.singleton c ++ "`"
  | .incomplete => "expected further input but found EOF"
  | .missingNamespace => "expected a namespace but none was given"
  | .invalidNamespace => "namespace for symbolic form was invalid in the given context"
  | .invalidIdentifier => "identifier for symbolic form was invalid in the given context"
  | .unclosedString => "started reading a string but did not find the terminating `\"`"
  | .unbalanced closing => "unbalanced collection: missing closing " ++ String.singleton closing
  | .unpairedMap => "map literal given with unpaired entries"
  | .unknownDispatch c => "could not parse dispatch with following char: #" ++ String.singleton c
  | .varNeedsSymbol found =>
    "reader macro `#'` requires a symbol suffix but found " ++ found.text ++ " instead"
  | .unknownCharName name => "unknown character name `\\" ++ name ++ "`"
  | .invalidMetadata found =>
    "metadata must be a map, keyword, symbol or string but found " ++ found.text
  | .invalidMetadataTarget target => "metadata can not be attached to " ++ target.text

structure ReadError where
  fault : ReadFault
  offset : Nat

namespace ReadError

def message (e : ReadError) : String :=
  e.fault.message ++ " starting at index " ++ toString e.offset ++ " in the input"

end ReadError

end LispFront
