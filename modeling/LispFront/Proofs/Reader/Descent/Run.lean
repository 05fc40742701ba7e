import LispFront.Proofs.Reader.Position
import LispFront.Reader.Descent

/-!
# Running the steps of the descent

One equation for each step, under what it relies on: there is a value to be taken, there are as many
values as before, the slice is one between two places that the reader has been at.
-/

namespace LispFront.Descent

variable {s : State}

theorem run_bind (x : DescentM α) (f : α → DescentM β) (s : State) :
    (x >>= f).run.run s =
      match x.run.run s with
      | (.ok a, t) => (f a).run.run t
      | (.error e, t) => (.error e, t) := by
  rw [ExceptT.run_bind, StateT.run_bind]
  rcases x.run.run s with ⟨e | a, t⟩
  · rfl
  · rfl

theorem run_bind_ok {x : DescentM α} {f : α → DescentM β} {a : α} {t : State}
    (h : x.run.run s = (.ok a, t)) : (x >>= f).run.run s = (f a).run.run t := by
  rw [run_bind, h]

theorem run_bind_error {x : DescentM α} {f : α → DescentM β} {e : Failure} {t : State}
    (h : x.run.run s = (.error e, t)) : (x >>= f).run.run s = (.error e, t) := by
  rw [run_bind, h]

theorem run_get {f : State → DescentM β} :
    ((get : DescentM State) >>= f).run.run s = (f s).run.run s :=
  rfl

theorem run_blame {f : Unit → DescentM β} (p : Position) :
    (blame p >>= f).run.run s = (f ()).run.run { s with cursor := p } :=
  rfl

theorem run_setExiting {f : Unit → DescentM β} (exiting : Bool) :
    (setExiting exiting >>= f).run.run s = (f ()).run.run { s with exiting } :=
  rfl

theorem run_skipWhile {f : Unit → DescentM β} (p : Char → Bool) :
    (skipWhile p >>= f).run.run s =
      (f ()).run.run (s.past (s.rest.takeWhile p) (s.rest.dropWhile p)) :=
  rfl

theorem run_push {f : Unit → DescentM β} (g : Form) :
    (push g >>= f).run.run s = (f ()).run.run { s with values := g :: s.values } :=
  rfl

theorem run_advance {c : Char} {cs : List Char} (h : s.rest = c :: cs) :
    advance.run.run s = (.ok (some (s.next, c)), s.past [c] cs) := by
  unfold advance
  rw [run_get, h]
  rfl

theorem run_advance_nil (h : s.rest = []) : advance.run.run s = (.ok none, s) := by
  unfold advance
  rw [run_get, h]
  rfl

theorem run_pop {f : Form} {fs : List Form} (h : s.values = f :: fs) :
    pop.run.run s = (.ok f, { s with values := fs }) := by
  unfold pop
  rw [run_get, h]
  rfl

theorem run_drain {gs fs : List Form} (h : s.values = gs.reverse ++ fs) :
    (drain fs.length).run.run s = (.ok gs, { s with values := fs }) := by
  have habove : s.values.length - fs.length = gs.reverse.length := by simp [h]
  have htake : s.values.take (s.values.length - fs.length) = gs.reverse := by
    rw [habove, h, List.take_left]
  have hdrop : s.values.drop (s.values.length - fs.length) = fs := by
    rw [habove, h, List.drop_left]
  unfold drain
  rw [run_get, if_neg (by simp [h])]
  simp only [htake, hdrop, List.reverse_reverse]
  rfl

theorem run_blaming (p : Position) (x : DescentM α) (s : State) :
    (blaming p x).run.run s =
      match x.run.run s with
      | (.ok a, t) => (.ok a, t)
      | (.error e, t) => (.error e, { t with cursor := p }) := by
  rw [blaming, ExceptT.run_tryCatch, StateT.run_bind]
  rcases x.run.run s with ⟨e | a, t⟩
  · rfl
  · rfl

theorem run_expectClosing {b : Bracket} {cs : List Char} (h : s.rest = b.closing :: cs)
    (start : Position) :
    (expectClosing b start).run.run s = (.ok (), s.past [b.closing] cs) := by
  unfold expectClosing
  rw [run_bind_ok (run_advance h)]
  dsimp only
  rw [if_neg (not_not_intro rfl)]
  rfl

theorem run_expectClosing_error {b : Bracket} (h : s.rest.head? ≠ some b.closing)
    (start : Position) : ∃ t : State, t.cursor = start ∧
      (expectClosing b start).run.run s = (.error (.fault (.unbalanced b.closing)), t) := by
  unfold expectClosing
  cases hrest : s.rest with
  | nil =>
    rw [run_bind_ok (run_advance_nil hrest)]
    exact ⟨_, rfl, rfl⟩
  | cons c cs =>
    rw [run_bind_ok (run_advance hrest)]
    dsimp only
    rw [if_pos (by simpa [hrest] using h)]
    exact ⟨_, rfl, rfl⟩

theorem splitBytes_behind (xs ys : List Char) :
    splitBytes (Position.behind xs).offset (xs ++ ys) = some (xs, ys) := by
  rw [Position.offset_behind]
  induction xs with
  | nil => cases ys <;> rfl
  | cons x xs ih =>
    have hpos := Char.utf8Size_pos x
    have hsize : (String.ofList (x :: xs)).utf8ByteSize =
        x.utf8Size + (String.ofList xs).utf8ByteSize := by
      rw [String.ofList_cons, String.utf8ByteSize_append, String.utf8ByteSize_singleton]
    obtain ⟨n, hn⟩ : ∃ n, x.utf8Size + (String.ofList xs).utf8ByteSize = n + 1 :=
      ⟨_, (Nat.succ_pred_eq_of_pos (by omega)).symm⟩
    rw [hsize, hn, List.cons_append, splitBytes, if_pos (by omega), ← hn,
      Nat.add_sub_cancel_left, ih]
    rfl

theorem run_slice {xs ys zs : List Char} (h : s.source = xs ++ ys ++ zs) :
    (slice (Position.behind xs).offset (Position.behind (xs ++ ys)).offset).run.run s =
      (.ok ys, s) := by
  unfold slice
  rw [run_get, h, splitBytes_behind]
  dsimp only
  rw [splitBytes_behind]
  rfl

theorem run_offset {xs : List Char} (hsource : s.source = xs ++ s.rest)
    (hnext : s.next = .behind xs) :
    offset.run.run s = (.ok (Position.behind xs).offset, s) := by
  unfold offset
  rw [run_get]
  cases hrest : s.rest with
  | nil =>
    rw [hrest, List.append_nil] at hsource
    rw [Position.offset_behind, ← hsource]
    rfl
  | cons c cs =>
    rw [← hnext]
    rfl

end LispFront.Descent
