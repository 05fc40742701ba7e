import LispFront.Reader.Frame
import LispFront.Reader.Token

/-!
# Reading by recursive descent

Another reader of the notation. What is open is kept in the calls of its functions, and the forms
that are finished are on one stack of values for all of them. The loop over the forms goes on or
exits after a form as a flag says, which a closing bracket sets and each function sets back when its
own loop is over.

Slices of the source are cut at byte offsets. That the offsets are in bounds, that the values are
where the functions expect them, and that the levels of calls suffice is not seen from the code, so
there are failures of their own for it.
-/

namespace LispFront.Descent

inductive Failure where
  | fault (fault : ReadFault)
  /-- No form is there to be taken. -/
  | missingForm
  /-- A mark was given more than one form. -/
  | tooManyForms
  /-- Forms were taken from what is open below. -/
  | droppedForms
  /-- A collection does not begin with a bracket. -/
  | missingBracket
  | outOfBounds
  /-- No level of calls is left. -/
  | exhausted

structure State where
  source : List Char
  /-- What is not taken yet. -/
  rest : List Char
  next : Position
  /-- Where a failure is blamed on. -/
  cursor : Position
  /-- The finished forms, the last one first. -/
  values : List Form
  exiting : Bool

abbrev DescentM := ExceptT Failure (StateM State)

def fail (fault : ReadFault) : DescentM α := throw (.fault fault)

def blame (p : Position) : DescentM Unit := modify ({ · with cursor := p })

def failAt (p : Position) (fault : ReadFault) : DescentM α := do
  blame p
  fail fault

def blaming (p : Position) (x : DescentM α) : DescentM α :=
  tryCatch x fun failure => do
    blame p
    throw failure

def setExiting (exiting : Bool) : DescentM Unit := modify ({ · with exiting })

section Values

def push (f : Form) : DescentM Unit := modify fun s => { s with values := f :: s.values }

def pop : DescentM Form := do
  let s ← get
  match s.values with
  | f :: values =>
    set { s with values }
    return f
  | [] => throw .missingForm

def drain (n : Nat) : DescentM (List Form) := do
  let s ← get
  if s.values.length < n then throw .outOfBounds
  else
    let above := s.values.length - n
    set { s with values := s.values.drop above }
    return (s.values.take above).reverse

def give : Except ReadFault Form → DescentM Unit
  | .ok f => push f
  | .error fault => fail fault

end Values

section Characters

def State.past (s : State) (taken rest : List Char) : State :=
  { s with rest, next := taken.foldl Position.after s.next }

def advance : DescentM (Option (Position × Char)) := do
  let s ← get
  match s.rest with
  | [] => return none
  | c :: cs =>
    set (s.past [c] cs)
    return some (s.next, c)

def skipWhile (p : Char → Bool) : DescentM Unit :=
  modify fun s => s.past (s.rest.takeWhile p) (s.rest.dropWhile p)

def skipComment : DescentM Unit := do
  skipWhile (· != '\n')
  let _ ← advance

def offset : DescentM Nat := do
  let s ← get
  match s.rest with
  | [] => return (String.ofList s.source).utf8ByteSize
  | _ :: _ => return s.next.offset

def splitBytes : Nat → List Char → Option (List Char × List Char)
  | 0, cs => some ([], cs)
  | _ + 1, [] => none
  | n + 1, c :: cs =>
    if c.utf8Size ≤ n + 1 then
      (splitBytes (n + 1 - c.utf8Size) cs).map fun (xs, ys) => (c :: xs, ys)
    else none

def slice (start stop : Nat) : DescentM (List Char) := do
  match splitBytes stop (← get).source with
  | none => throw .outOfBounds
  | some (cs, _) =>
    match splitBytes start cs with
    | none => throw .outOfBounds
    | some (_, cs) => return cs

/-- The next double quote that no backslash stands before, and what is left behind it. -/
def findQuote : Position → List Char → Option (Position × List Char)
  | _, [] => none
  | p, '"' :: cs => some (p, cs)
  | _, ['\\'] => none
  | p, '\\' :: c :: cs => findQuote ((p.after '\\').after c) cs
  | p, c :: cs => findQuote (p.after c) cs

def closeQuote : DescentM Nat := do
  let s ← get
  match findQuote s.next s.rest with
  | some (p, rest) =>
    set { s with rest, next := p.after '"' }
    return p.offset
  | none => fail .unclosedString

end Characters

section Literals

def readAtom (c : Char) (start : Position) : DescentM Unit := do
  blame start
  if Text.startsToken c then
    let _ ← advance
    skipWhile Text.continuesToken
    let stop ← offset
    give (Token.form (← slice start.offset stop))
  else fail (.unexpected c)

def readString (start : Position) : DescentM Unit := do
  blame start
  let _ ← advance
  let stop ← closeQuote
  let cs ← slice (start.offset + 1) stop
  push (.string (String.ofList (Text.unescape cs)))

def readRegex (start : Position) : DescentM Unit := do
  let _ ← advance
  let stop ← closeQuote
  let cs ← slice (start.offset + 2) stop
  push (.regex (String.ofList cs))

def readChar (start : Position) : DescentM Unit := do
  blame start
  let _ ← advance
  match ← advance with
  | none => fail .incomplete
  | some (_, c) =>
    let continues (d : Char) := Text.isAlphanumeric c && Text.isAlphanumeric d
    let name := c :: (← get).rest.takeWhile continues
    skipWhile continues
    let stop := start.offset + 1 + (String.ofList name).utf8ByteSize
    give (Token.char (← slice (start.offset + 1) stop))

end Literals

section Nested

def expectClosing (b : Bracket) (start : Position) : DescentM Unit := do
  match ← advance with
  | some (_, c) => if c ≠ b.closing then failAt start (.unbalanced b.closing)
  | none => failAt start (.unbalanced b.closing)

variable (inner : DescentM Unit)

def readCollection (b : Bracket) : DescentM Unit := do
  match ← advance with
  | none => throw .missingBracket
  | some (start, _) =>
    blame start
    let s ← get
    setExiting false
    inner
    setExiting s.exiting
    match b.gather start (← drain s.values.length) with
    | .error fault => failAt start fault
    | .ok f =>
      push f
      expectClosing b start

def readOne (start : Position) : DescentM Unit := do
  blame start
  let s ← get
  setExiting true
  blaming start inner
  setExiting s.exiting
  let n := (← get).values.length
  if n = s.values.length then failAt start .incomplete
  else if n > s.values.length + 1 then throw .tooManyForms
  else if n < s.values.length then throw .droppedForms

def readMark (name : String) (start : Position) : DescentM Unit := do
  readOne inner start
  let f ← pop
  push (.call name [f])

def readVar (start : Position) : DescentM Unit := do
  readOne inner start
  match ← pop with
  | .symbol s m => push (.call "var" [.symbol s m])
  | f => failAt start (.varNeedsSymbol f)

def readDiscard (start : Position) : DescentM Unit := do
  readOne inner start
  let _ ← pop

def readMetadata (start : Position) : DescentM Unit := do
  readOne inner start
  let f ← pop
  match f.asMetadata? with
  | none => failAt start (.invalidMetadata f)
  | some m =>
    readOne inner start
    let target ← pop
    match target.withMetadata? (FormMap.merge target.metadata m) with
    | some f => push f
    | none => failAt start (.invalidMetadataTarget target)

def readDispatch (start : Position) : DescentM Unit := do
  blame start
  match (← get).rest with
  | [] => fail .incomplete
  | '{' :: _ => blaming start (readCollection inner .hashCurly)
  | '"' :: _ => readRegex start
  | '\'' :: _ =>
    let _ ← advance
    readVar inner start
  | '_' :: _ =>
    let _ ← advance
    readDiscard inner start
  | c :: _ => fail (.unknownDispatch c)

def readForm (c : Char) (start : Position) : DescentM Unit := do
  match c with
  | '(' => readCollection inner .round
  | '[' => readCollection inner .square
  | '{' => readCollection inner .curly
  | ')' | ']' | '}' => setExiting true
  | '#' =>
    let _ ← advance
    readDispatch inner start
  | '@' =>
    let _ ← advance
    readMark inner "deref" start
  | '\'' =>
    let _ ← advance
    readMark inner "quote" start
  | '^' =>
    let _ ← advance
    readMetadata inner start
  | '\\' => readChar start
  | '"' => readString start
  | c => readAtom c start

end Nested

/-- Reads forms until it exits or the source ends, at most so many levels of calls deep. -/
def readForms : Nat → DescentM Unit
  | 0 => throw .exhausted
  | fuel + 1 => do
    let s ← get
    match s.rest with
    | [] => return
    | c :: _ =>
      if Text.isBlank c then
        skipWhile Text.isBlank
        readForms fuel
      else if c = ';' then
        skipComment
        readForms fuel
      else
        readForm (readForms fuel) c s.next
        unless (← get).exiting do readForms fuel

def readAll (fuel : Nat) : DescentM Unit := do
  readForms fuel
  match ← advance with
  | some (p, c) => failAt p (.unexpected c)
  | none => return

def State.initial (source : List Char) : State := ⟨source, source, .start, .start, [], false⟩

end Descent

/-- What is read by descent, or the failure and the offset that it is blamed on. -/
def readByDescent (source : String) : Except (Descent.Failure × Nat) (List Form) :=
  match (Descent.readAll (source.length + 1)).run.run (.initial source.toList) with
  | (.ok _, s) => .ok s.values.reverse
  | (.error failure, s) => .error (failure, s.cursor.offset)

end LispFront
