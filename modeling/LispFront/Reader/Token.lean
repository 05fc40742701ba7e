import LispFront.Reader.Fault
import LispFront.Text.CharClass

/-!
# Tokens

The form that an unbroken run of token characters denotes: a number, one of the three words, a
keyword or a symbol. The first slash of a name ends its namespace. A colon may only stand in front
of a keyword.
-/

namespace LispFront.Token

def splitName (cs : List Char) : Except ReadFault (Option String × String) :=
  let ns := cs.takeWhile (· != '/')
  match cs, cs.dropWhile (· != '/') with
  | [], _ => .error .invalidIdentifier
  | ['/'], _ => .ok (none, "/")
  | _, [] =>
    if ns.contains ':' then .error .invalidIdentifier else .ok (none, String.ofList ns)
  | _, _ :: identifier =>
    if ns.isEmpty then .error .missingNamespace
    else if identifier.isEmpty then .error .invalidIdentifier
    else if ns.contains ':' then .error .invalidNamespace
    else if identifier.contains ':' then .error .invalidIdentifier
    else .ok (some (String.ofList ns), String.ofList identifier)

def name : List Char → Except ReadFault Form
  | [':', '/'] => .error .invalidIdentifier
  | ':' :: cs => (splitName cs).map fun (ns, name) => .keyword ⟨ns, name⟩
  | cs => (splitName cs).map fun (ns, name) => .symbol ⟨ns, name⟩ []

def form (cs : List Char) : Except ReadFault Form :=
  if Text.startsNumber cs then
    match Text.integer cs with
    | .ok n => .ok (.number n)
    | .error fault => .error (.badNumber fault)
  else
    match String.ofList cs with
    | "nil" => .ok .nil
    | "true" => .ok (.bool true)
    | "false" => .ok (.bool false)
    | _ => name cs

def char (cs : List Char) : Except ReadFault Form :=
  match Text.charOfName? cs with
  | some c => .ok (.char c)
  | none => .error (.unknownCharName (String.ofList cs))

end LispFront.Token
