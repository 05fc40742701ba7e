import LispFront.Reader.Frame
import LispFront.Reader.Token

/-!
# Reading a text

The reader takes the characters of a text one after the other. Its state is the place of the next
character, what the characters since the last boundary are part of, and the stack of frames. A text
is read by folding the step over its characters and finishing at its end, so what a text does after
another one depends on the state between them and on nothing else.
-/

namespace LispFront.Reader

/-- What the next character continues. Characters seen are kept the last one first. -/
inductive Mode where
  | between
  | comment
  | token (start : Position) (seen : List Char)
  | string (start : Position) (seen : List Char) (escaped : Bool)
  | regex (start : Position) (seen : List Char) (escaped : Bool)
  /-- Behind a `#`. -/
  | dispatch (start : Position)
  /-- Behind the backslash of a character. -/
  | char (start : Position)
  | charName (start : Position) (seen : List Char)

structure State where
  next : Position
  mode : Mode
  stack : Stack

def State.initial : State := ⟨.start, .between, ⟨[], []⟩⟩

namespace State

def fail (s : State) (p : Position) (fault : ReadFault) : Except ReadError α :=
  LispFront.fail s.stack.frames p fault

def deliver (s : State) (f : Form) : Except ReadError State :=
  (Stack.deliver s.stack.forms s.stack.frames f).map fun stack =>
    { s with mode := .between, stack }

def complete (s : State) (start : Position) : Except ReadFault Form → Except ReadError State
  | .ok f => s.deliver f
  | .error fault => s.fail start fault

def openFrame (s : State) (f : Frame) : State :=
  { s with mode := .between, stack := s.stack.push f }

def close (s : State) (c : Char) : Except ReadError State :=
  if s.stack.frames.isEmpty then s.fail s.next (.unexpected c)
  else (s.stack.close (some c)).map fun stack => { s with mode := .between, stack }

def begin (s : State) (c : Char) : Except ReadError State :=
  if Text.isBlank c then .ok { s with mode := .between }
  else match c with
  | ';' => .ok { s with mode := .comment }
  | '(' => .ok (s.openFrame (.collecting .round s.next []))
  | '[' => .ok (s.openFrame (.collecting .square s.next []))
  | '{' => .ok (s.openFrame (.collecting .curly s.next []))
  | ')' | ']' | '}' => s.close c
  | '#' => .ok { s with mode := .dispatch s.next }
  | '@' => .ok (s.openFrame (.awaiting .deref s.next))
  | '\'' => .ok (s.openFrame (.awaiting .quote s.next))
  | '^' => .ok (s.openFrame (.awaiting .metadata s.next))
  | '\\' => .ok { s with mode := .char s.next }
  | '"' => .ok { s with mode := .string s.next [] false }
  | c =>
    if Text.startsToken c then .ok { s with mode := .token s.next [c] }
    else s.fail s.next (.unexpected c)

def dispatch (s : State) (start : Position) (c : Char) : Except ReadError State :=
  match c with
  | '{' => .ok (s.openFrame (.collecting .hashCurly start []))
  | '"' => .ok { s with mode := .regex start [] false }
  | '\'' => .ok (s.openFrame (.awaiting .var start))
  | '_' => .ok (s.openFrame (.awaiting .discard start))
  | c => s.fail start (.unknownDispatch c)

def take (s : State) (c : Char) : Except ReadError State :=
  match s.mode with
  | .between => s.begin c
  | .comment => .ok (if c = '\n' then { s with mode := .between } else s)
  | .token start seen =>
    if Text.continuesToken c then .ok { s with mode := .token start (c :: seen) }
    else (s.complete start (Token.form seen.reverse)).bind (·.begin c)
  | .string start seen escaped =>
    if escaped then .ok { s with mode := .string start (c :: seen) false }
    else if c = '"' then s.deliver (.string (String.ofList (Text.unescape seen.reverse)))
    else .ok { s with mode := .string start (c :: seen) (c == '\\') }
  | .regex start seen escaped =>
    if escaped then .ok { s with mode := .regex start (c :: seen) false }
    else if c = '"' then s.deliver (.regex (String.ofList seen.reverse))
    else .ok { s with mode := .regex start (c :: seen) (c == '\\') }
  | .dispatch start => s.dispatch start c
  | .char start =>
    if Text.isAlphanumeric c then .ok { s with mode := .charName start [c] }
    else s.complete start (Token.char [c])
  | .charName start seen =>
    if Text.isAlphanumeric c then .ok { s with mode := .charName start (c :: seen) }
    else (s.complete start (Token.char seen.reverse)).bind (·.begin c)

def step (s : State) (c : Char) : Except ReadError State :=
  (s.take c).map fun t => { t with next := s.next.after c }

def settle (s : State) : Except ReadError State :=
  match s.mode with
  | .between | .comment => .ok s
  | .token start seen => s.complete start (Token.form seen.reverse)
  | .charName start seen => s.complete start (Token.char seen.reverse)
  | .string start _ _ | .regex start _ _ => s.fail start .unclosedString
  | .dispatch start | .char start => s.fail start .incomplete

def finish (s : State) : Except ReadError (List Form) :=
  s.settle.bind fun t => (t.stack.close none).map (·.forms.reverse)

def run (s : State) (cs : List Char) : Except ReadError State := cs.foldlM step s

end State

end LispFront.Reader

namespace LispFront

def read (source : String) : Except ReadError (List Form) :=
  (Reader.State.initial.run source.toList).bind (·.finish)

def ReadError.context (e : ReadError) (source : String) : String :=
  String.ofList (dropBytes e.offset source.toList)

end LispFront
