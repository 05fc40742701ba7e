import Mathlib.Data.List.TakeWhile
import LispFront.Proofs.Reader.Position
import LispFront.Proofs.Reader.Running
import LispFront.Proofs.Span

/-!
# Running the reader over a span of the text

Where blanks, a comment, a token or a quoted text is in front of the reader, it gets to the end of
the span, whatever is open: the stack has got the literal, or the literal has failed where it starts.
-/

namespace LispFront

def Stack.complete (s : Stack) (start : Position) : Except ReadFault Form → Except ReadError Stack
  | .ok f => deliver s.forms s.frames f
  | .error fault => fail s.frames start fault

namespace Reader.State

variable {stack : Stack} {p start : Position} {cs : List Char}

theorem next_of_run {s t : State} (h : s.run cs = .ok t) : t.next = cs.foldl .after s.next := by
  induction cs generalizing s with
  | nil =>
    cases h
    rfl
  | cons c cs ih =>
    obtain ⟨u, hu, ht⟩ := bind_eq_ok.mp h
    obtain ⟨v, -, rfl⟩ := map_eq_ok.mp hu
    exact ih ht

theorem readRest_while (mode : List Char → Mode) (stack : Stack) (xs : List Char)
    (h : ∀ c ∈ xs, ∀ p seen,
      take ⟨p, mode seen, stack⟩ c = .ok ⟨p, mode (c :: seen), stack⟩)
    (p : Position) (seen ys : List Char) :
    readRest ⟨p, mode seen, stack⟩ (xs ++ ys) =
      readRest ⟨xs.foldl .after p, mode (xs.reverse ++ seen), stack⟩ ys := by
  obtain ⟨q, hq⟩ := run_while mode stack h p seen
  have hnext : q = xs.foldl .after p := next_of_run hq
  rw [readRest_append, hq, hnext]
  rfl

theorem readRest_blanks (p : Position) (stack : Stack) (cs : List Char) :
    readRest ⟨p, .between, stack⟩ cs =
      readRest ⟨(cs.takeWhile Text.isBlank).foldl .after p, .between, stack⟩
        (cs.dropWhile Text.isBlank) := by
  have hrest := readRest_while (fun _ => .between) stack (cs.takeWhile Text.isBlank)
    (fun c hc _ _ => if_pos (List.mem_takeWhile_imp hc)) p [] (cs.dropWhile Text.isBlank)
  rwa [List.takeWhile_append_dropWhile] at hrest

theorem readRest_comment (p : Position) (stack : Stack) (cs : List Char) :
    readRest ⟨p, .comment, stack⟩ cs =
      readRest ⟨(cs.takeWhile (· != '\n')).foldl .after p, .comment, stack⟩
        (cs.dropWhile (· != '\n')) := by
  have hrest := readRest_while (fun _ => .comment) stack (cs.takeWhile (· != '\n'))
    (fun c hc _ _ => ?_) p [] (cs.dropWhile (· != '\n'))
  · rwa [List.takeWhile_append_dropWhile] at hrest
  · exact congrArg Except.ok (if_neg (by simpa using List.mem_takeWhile_imp hc))

theorem readRest_collected {mode : List Char → Mode} {continues : Char → Bool}
    {denote : List Char → Except ReadFault Form}
    (htake : ∀ p seen c, take ⟨p, mode seen, stack⟩ c =
      if continues c then .ok ⟨p, mode (c :: seen), stack⟩
      else (complete ⟨p, mode seen, stack⟩ start (denote seen.reverse)).bind (·.begin c))
    (hsettle : ∀ p seen, settle ⟨p, mode seen, stack⟩ =
      complete ⟨p, mode seen, stack⟩ start (denote seen.reverse))
    (p : Position) (seen cs : List Char) :
    readRest ⟨p, mode seen, stack⟩ cs =
      (stack.complete start (denote (seen.reverse ++ cs.takeWhile continues))).bind fun t =>
        readRest ⟨(cs.takeWhile continues).foldl .after p, .between, t⟩
          (cs.dropWhile continues) := by
  have hrest := readRest_while mode stack (cs.takeWhile continues)
    (fun c hc p seen => (htake p seen c).trans (if_pos (List.mem_takeWhile_imp hc))) p seen
    (cs.dropWhile continues)
  rw [List.takeWhile_append_dropWhile] at hrest
  rw [hrest]
  generalize (cs.takeWhile continues).foldl Position.after p = q
  have hseen : seen.reverse ++ cs.takeWhile continues =
      ((cs.takeWhile continues).reverse ++ seen).reverse := by simp
  rw [hseen]
  generalize (cs.takeWhile continues).reverse ++ seen = seen'
  cases hds : cs.dropWhile continues with
  | nil =>
    have hend := hsettle q seen'
    cases hf : denote seen'.reverse with
    | ok f =>
      rw [hf] at hend
      exact readRest_settle hend
    | error fault =>
      change (settle _).bind _ = _
      rw [hend, hf]
      rfl
  | cons c ds =>
    have hc : ¬continues c := by
      have hhead := List.head?_dropWhile_not continues cs
      rw [hds] at hhead
      simpa using hhead
    have hend := (htake q seen' c).trans (if_neg hc)
    cases hf : denote seen'.reverse with
    | ok f =>
      rw [hf] at hend
      exact readRest_again hend ds
    | error fault =>
      rw [readRest_cons, hend, hf]
      rfl

theorem readRest_token (h : IsToken cs) (p : Position) (stack : Stack) {ys : List Char}
    (hys : ∀ c ∈ ys.head?, Text.continuesToken c = false) :
    readRest ⟨p, .between, stack⟩ (cs ++ ys) =
      (stack.complete p (Token.form cs)).bind fun t =>
        readRest ⟨cs.foldl .after p, .between, t⟩ ys := by
  cases cs with
  | nil => exact h.elim
  | cons c cs =>
    obtain ⟨hopen, hcs⟩ := h
    have htake : take ⟨p, .between, stack⟩ c = .ok ⟨p, .token p [c], stack⟩ := hopen _
    rw [List.cons_append, readRest_cons, htake]
    refine (readRest_collected (fun _ _ _ => rfl) (fun _ _ => rfl) _ [c] (cs ++ ys)).trans ?_
    rw [takeWhile_append_of_stop hcs hys, dropWhile_append_of_stop hcs hys]
    rfl

theorem readRest_complete {s : State} {c : Char} {r : Except ReadFault Form}
    (h : s.take c = s.complete start r) (cs : List Char) :
    s.readRest (c :: cs) = (s.stack.complete start r).bind fun t =>
      readRest ⟨s.next.after c, .between, t⟩ cs := by
  cases r with
  | ok f => exact readRest_deliver h cs
  | error fault =>
    rw [readRest_cons, h]
    rfl

section Quoted

variable {mode : List Char → Bool → Mode} (hon : ∀ p seen escaped c, (escaped = true ∨ c ≠ '"') →
    take ⟨p, mode seen escaped, stack⟩ c =
      .ok ⟨p, mode (c :: seen) (!escaped && c == '\\'), stack⟩)
include hon

theorem readRest_quoted {make : List Char → Form}
    (hclose : ∀ p seen, take ⟨p, mode seen false, stack⟩ '"' =
      deliver ⟨p, mode seen false, stack⟩ (make seen.reverse))
    {body : List Char} (hbody : Text.scan false body = some false) (p : Position) (cs : List Char) :
    readRest ⟨p, mode [] false, stack⟩ (body ++ '"' :: cs) =
      (Stack.deliver stack.forms stack.frames (make body)).bind fun t =>
        readRest ⟨(body.foldl .after p).after '"', .between, t⟩ cs := by
  obtain ⟨q, hq⟩ := run_quoted mode stack hon hbody p []
  have hnext : q = body.foldl .after p := next_of_run hq
  rw [List.append_nil] at hq
  rw [readRest_append, hq, hnext]
  refine (readRest_deliver (hclose _ _) cs).trans ?_
  rw [List.reverse_reverse]

theorem readRest_unclosed {escaped : Bool}
    (hsettle : ∀ p seen escaped, settle ⟨p, mode seen escaped, stack⟩ =
      LispFront.fail stack.frames start .unclosedString)
    (hcs : Text.scan false cs = some escaped) (p : Position) :
    readRest ⟨p, mode [] false, stack⟩ cs = LispFront.fail stack.frames start .unclosedString := by
  obtain ⟨q, hq⟩ := run_quoted mode stack hon hcs p []
  rw [readRest, hq]
  change (settle _).bind _ = _
  rw [hsettle]
  rfl

end Quoted

end Reader.State

end LispFront
