import LispFront.Proofs.Reader.Readable

/-!
# Running the reader

What the reader makes of a text is what it makes of the rest of it from the state that a part of it
leads to. Forms are delivered to the stack, which collects them if no mark is in the way.
-/

namespace LispFront

namespace Stack

/-- Forms are collected at the top, not given to a mark. -/
def Receptive (s : Stack) : Prop :=
  s.frames = [] ∨ ∃ b start elems fs, s.frames = .collecting b start elems :: fs

def give (s : Stack) (f : Form) : Stack :=
  match s.frames with
  | .collecting b start elems :: fs => ⟨.collecting b start (f :: elems) :: fs, s.forms⟩
  | fs => ⟨fs, f :: s.forms⟩

def giveAll (s : Stack) (fs : List Form) : Stack := fs.foldl give s

variable {s : Stack}

theorem deliver_of_receptive (h : s.Receptive) (f : Form) :
    deliver s.forms s.frames f = .ok (s.give f) := by
  obtain ⟨frames, forms⟩ := s
  rcases h with rfl | ⟨b, start, elems, fs, rfl⟩
  · rfl
  · rfl

theorem receptive_give (h : s.Receptive) (f : Form) : (s.give f).Receptive := by
  obtain ⟨frames, forms⟩ := s
  rcases h with rfl | ⟨b, start, elems, fs, rfl⟩
  · exact .inl rfl
  · exact .inr ⟨b, start, f :: elems, fs, rfl⟩

theorem receptive_push (s : Stack) (b : Bracket) (start : Position) (elems : List Form) :
    (s.push (.collecting b start elems)).Receptive :=
  .inr ⟨b, start, elems, s.frames, rfl⟩

theorem giveAll_top (forms fs : List Form) :
    giveAll ⟨[], forms⟩ fs = ⟨[], fs.reverse ++ forms⟩ := by
  induction fs generalizing forms with
  | nil => rfl
  | cons f fs ih =>
    rw [List.reverse_cons, List.append_assoc]
    exact ih (f :: forms)

theorem giveAll_collecting (b : Bracket) (start : Position) (elems forms fs : List Form)
    (frames : List Frame) :
    giveAll ⟨.collecting b start elems :: frames, forms⟩ fs =
      ⟨.collecting b start (fs.reverse ++ elems) :: frames, forms⟩ := by
  induction fs generalizing elems with
  | nil => rfl
  | cons f fs ih =>
    rw [List.reverse_cons, List.append_assoc]
    exact ih (f :: elems)

end Stack

namespace Reader.State

theorem run_cons {s t : State} {c : Char} (h : s.take c = .ok t) (cs : List Char) :
    s.run (c :: cs) = run { t with next := s.next.after c } cs := by
  change (s.step c).bind (·.run cs) = _
  rw [step, h]
  rfl

theorem run_append (s : State) (xs ys : List Char) :
    s.run (xs ++ ys) = (s.run xs).bind (·.run ys) :=
  List.foldlM_append

/-- What the reader makes of a text from this state on. -/
def readRest (s : State) (cs : List Char) : Except ReadError (List Form) :=
  (s.run cs).bind (·.finish)

theorem readRest_append (s : State) (xs ys : List Char) :
    s.readRest (xs ++ ys) = (s.run xs).bind (·.readRest ys) := by
  unfold readRest
  rw [run_append]
  cases s.run xs <;> rfl

theorem readRest_cons (s : State) (c : Char) (cs : List Char) :
    s.readRest (c :: cs) =
      (s.take c).bind fun t => readRest { t with next := s.next.after c } cs := by
  change ((s.step c).bind (·.run cs)).bind (·.finish) = _
  unfold step
  cases s.take c with
  | error e => rfl
  | ok t => rfl

theorem readRest_close {p : Position} {stack : Stack} {c : Char} (hopen : stack.frames ≠ [])
    (hbegin : ∀ s : State, s.begin c = s.close c) (cs : List Char) :
    readRest ⟨p, .between, stack⟩ (c :: cs) =
      (stack.close (some c)).bind fun t => readRest ⟨p.after c, .between, t⟩ cs := by
  have htake : take ⟨p, .between, stack⟩ c =
      (stack.close (some c)).map fun t => ⟨p, .between, t⟩ := by
    refine (hbegin _).trans (if_neg ?_)
    simpa using hopen
  rw [readRest_cons, htake]
  cases stack.close (some c) with
  | error e => rfl
  | ok t => rfl

section Deliver

variable {s : State} {f : Form}

theorem readRest_deliver {c : Char} (h : s.take c = s.deliver f) (cs : List Char) :
    s.readRest (c :: cs) = (Stack.deliver s.stack.forms s.stack.frames f).bind fun t =>
      readRest ⟨s.next.after c, .between, t⟩ cs := by
  rw [readRest_cons, h, deliver]
  cases Stack.deliver s.stack.forms s.stack.frames f with
  | error e => rfl
  | ok t => rfl

theorem readRest_again {c : Char} (h : s.take c = (s.deliver f).bind (·.begin c)) (cs : List Char) :
    s.readRest (c :: cs) = (Stack.deliver s.stack.forms s.stack.frames f).bind fun t =>
      readRest ⟨s.next, .between, t⟩ (c :: cs) := by
  rw [readRest_cons, h, deliver]
  cases Stack.deliver s.stack.forms s.stack.frames f with
  | error e => rfl
  | ok t => exact (readRest_cons ⟨s.next, .between, t⟩ c cs).symm

theorem readRest_settle (h : s.settle = s.deliver f) :
    s.readRest [] = (Stack.deliver s.stack.forms s.stack.frames f).bind fun t =>
      readRest ⟨s.next, .between, t⟩ [] := by
  change s.settle.bind _ = _
  rw [h, deliver]
  cases Stack.deliver s.stack.forms s.stack.frames f with
  | error e => rfl
  | ok t => rfl

end Deliver

theorem begin_closing (s : State) (b : Bracket) : s.begin b.closing = s.close b.closing := by
  cases b <;> rfl

theorem run_while (mode : List Char → Mode) (stack : Stack) {cs : List Char}
    (h : ∀ c ∈ cs, ∀ p seen, take ⟨p, mode seen, stack⟩ c = .ok ⟨p, mode (c :: seen), stack⟩)
    (p : Position) (seen : List Char) :
    ∃ q, run ⟨p, mode seen, stack⟩ cs = .ok ⟨q, mode (cs.reverse ++ seen), stack⟩ := by
  induction cs generalizing p seen with
  | nil => exact ⟨p, rfl⟩
  | cons c cs ih =>
    obtain ⟨hc, hcs⟩ := List.forall_mem_cons.mp h
    obtain ⟨q, hq⟩ := ih hcs (p.after c) (c :: seen)
    refine ⟨q, ?_⟩
    rw [run_cons (hc p seen), List.reverse_cons, List.append_assoc]
    exact hq

theorem take_string {p start : Position} {seen : List Char} {escaped : Bool} {stack : Stack}
    {c : Char} (h : escaped ∨ c ≠ '"') :
    take ⟨p, .string start seen escaped, stack⟩ c =
      .ok ⟨p, .string start (c :: seen) (!escaped && c == '\\'), stack⟩ := by
  cases escaped with
  | true => rfl
  | false => simp [take, h.resolve_left]

theorem take_regex {p start : Position} {seen : List Char} {escaped : Bool} {stack : Stack}
    {c : Char} (h : escaped ∨ c ≠ '"') :
    take ⟨p, .regex start seen escaped, stack⟩ c =
      .ok ⟨p, .regex start (c :: seen) (!escaped && c == '\\'), stack⟩ := by
  cases escaped with
  | true => rfl
  | false => simp [take, h.resolve_left]

theorem run_quoted (mode : List Char → Bool → Mode) (stack : Stack)
    (hmode : ∀ p seen escaped c, (escaped = true ∨ c ≠ '"') →
      take ⟨p, mode seen escaped, stack⟩ c =
        .ok ⟨p, mode (c :: seen) (!escaped && c == '\\'), stack⟩)
    {cs : List Char} {escaped escaped' : Bool} (h : Text.scan escaped cs = some escaped')
    (p : Position) (seen : List Char) :
    ∃ q, run ⟨p, mode seen escaped, stack⟩ cs =
      .ok ⟨q, mode (cs.reverse ++ seen) escaped', stack⟩ := by
  induction cs generalizing escaped p seen with
  | nil =>
    cases escaped <;> cases h <;> exact ⟨p, rfl⟩
  | cons c cs ih =>
    have hc : escaped = true ∨ c ≠ '"' := by
      cases escaped with
      | true => exact .inl rfl
      | false =>
        refine .inr fun hc => ?_
        simp [Text.scan, hc] at h
    have hrest : Text.scan (!escaped && c == '\\') cs = some escaped' := by
      cases escaped with
      | true => simpa [Text.scan] using h
      | false => simpa [Text.scan, hc.resolve_left] using h
    obtain ⟨q, hq⟩ := ih hrest (p.after c) (c :: seen)
    refine ⟨q, ?_⟩
    rw [run_cons (hmode p seen escaped c hc), List.reverse_cons, List.append_assoc]
    exact hq

end Reader.State

end LispFront
