import LispFront.Form.Metadata
import LispFront.Reader.Fault
import LispFront.Reader.Position

/-!
# What is open while reading

A stack of frames holds the brackets and marks that wait for something, the innermost first, above
the forms already read. A form is delivered to the innermost frame; a mark that has got what it
waits for makes a form of its own and delivers that to the frame below.

A mark speaks for all that is read on its behalf, and so does the bracket of a set: a fault below
them is blamed on where the outermost of them starts.
-/

namespace LispFront

inductive Bracket where
  | round | square | curly | hashCurly
deriving DecidableEq, Repr

inductive Mark where
  | quote | deref | var | discard | metadata
deriving DecidableEq, Repr

inductive Frame where
  /-- A bracket, with the elements read so far, the last one first. -/
  | collecting (bracket : Bracket) (start : Position) (elems : List Form)
  /-- A mark that waits for its form. -/
  | awaiting (mark : Mark) (start : Position)
  /-- A metadata mark that has its metadata and waits for what will carry it. -/
  | decorating (metadata : FormMap) (start : Position)

def Bracket.closing : Bracket → Char
  | .round => ')'
  | .square => ']'
  | .curly | .hashCurly => '}'

def pairs : List α → Option (List (α × α))
  | [] => some []
  | [_] => none
  | a :: b :: l => (pairs l).map ((a, b) :: ·)

def Position.metadata (p : Position) : FormMap :=
  FormMap.ofList
    [(.key "line", .number (.ofNat p.line)), (.key "column", .number (.ofNat p.column))]

def Bracket.gather (start : Position) (elems : List Form) : Bracket → Except ReadFault Form
  | .round => .ok (.list elems start.metadata)
  | .square => .ok (.vector elems [])
  | .curly =>
    match pairs elems with
    | some entries => .ok (.map (FormMap.ofList entries) [])
    | none => .error .unpairedMap
  | .hashCurly => .ok (.set (FormSet.ofList elems) [])

def Form.asMetadata? : Form → Option FormMap
  | .map entries _ => some entries
  | .keyword k => some [(.keyword k, .bool true)]
  | .symbol s m => some [(.key "tag", .symbol s m)]
  | .string s => some [(.key "tag", .string s)]
  | _ => none

namespace Frame

def blamed? : Frame → Option Position
  | .collecting .hashCurly start _ => some start
  | .collecting .. => none
  | .awaiting _ start | .decorating _ start => some start

end Frame

/-- The place that a fault at `p` above the frames is blamed on. -/
def blame (p : Position) : List Frame → Position
  | [] => p
  | f :: fs => blame (f.blamed?.getD p) fs

def fail (fs : List Frame) (p : Position) (fault : ReadFault) : Except ReadError α :=
  .error ⟨fault, (blame p fs).offset⟩

structure Stack where
  frames : List Frame
  /-- The finished forms, the last one first. -/
  forms : List Form

namespace Stack

def push (s : Stack) (f : Frame) : Stack := { s with frames := f :: s.frames }

/-- Goes on after a discarded form. A mark can not be given nothing. -/
def skip (forms : List Form) : List Frame → Except ReadError Stack
  | .awaiting _ start :: fs | .decorating _ start :: fs => fail fs start .incomplete
  | fs => .ok ⟨fs, forms⟩

def deliver (forms : List Form) : List Frame → Form → Except ReadError Stack
  | [], f => .ok ⟨[], f :: forms⟩
  | .collecting b start elems :: fs, f => .ok ⟨.collecting b start (f :: elems) :: fs, forms⟩
  | .awaiting mark start :: fs, f =>
    match mark with
    | .quote => deliver forms fs (.call "quote" [f])
    | .deref => deliver forms fs (.call "deref" [f])
    | .var =>
      match f with
      | .symbol s m => deliver forms fs (.call "var" [.symbol s m])
      | f => fail fs start (.varNeedsSymbol f)
    | .discard => skip forms fs
    | .metadata =>
      match f.asMetadata? with
      | some m => .ok ⟨.decorating m start :: fs, forms⟩
      | none => fail fs start (.invalidMetadata f)
  | .decorating m start :: fs, f =>
    match f.withMetadata? (FormMap.merge f.metadata m) with
    | some g => deliver forms fs g
    | none => fail fs start (.invalidMetadataTarget f)

def close (s : Stack) (closing : Option Char) : Except ReadError Stack :=
  match s.frames with
  | [] => .ok s
  | .collecting b start elems :: fs =>
    match b.gather start elems.reverse with
    | .error fault => fail fs start fault
    | .ok f =>
      if closing = some b.closing then deliver s.forms fs f
      else fail fs start (.unbalanced b.closing)
  | .awaiting _ start :: fs | .decorating _ start :: fs => fail fs start .incomplete

end Stack

end LispFront
