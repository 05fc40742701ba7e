import LispFront.Proofs.Reader.Descent.Run
import LispFront.Proofs.Reader.Spans

/-!
# What the descent comes to

A call of the descent is compared with the reader that has a stack, in the same place and with
whatever is open there: where the call has read a form, that reader has delivered it, and where the
call has failed, that reader has failed, what is open moving the blame only.
-/

namespace LispFront

/-- The source has something to be read at this position. -/
def Position.Blamable (source : List Char) (p : Position) : Prop :=
  ∃ c, p.Holds source c ∧ ¬Text.isBlank c ∧ c ≠ ';'

namespace Descent

def State.Stands (s : State) : Prop :=
  ∃ seen, s.source = seen ++ s.rest ∧ s.next = .behind seen

def State.goesOn (s : State) (stack : Stack) : Except ReadError (List Form) :=
  Reader.State.readRest ⟨s.next, .between, stack⟩ s.rest

def State.AtClosing (s : State) : Prop :=
  s.rest = [] ∨ ∃ c cs, s.rest = c :: cs ∧ c ∈ [')', ']', '}']

structure Passed (s t : State) : Prop where
  source : t.source = s.source
  taken : ∃ taken, s.rest = taken ++ t.rest ∧ t.next = taken.foldl .after s.next

structure Took (s t : State) : Prop extends Passed s t where
  shorter : t.rest.length < s.rest.length
  exiting : t.exiting = s.exiting

section Passing

variable {s t u : State} {c : Char} {cs : List Char}

theorem Passed.refl (s : State) : Passed s s := ⟨rfl, [], rfl, rfl⟩

theorem Passed.trans (h : Passed s t) (h' : Passed t u) : Passed s u := by
  obtain ⟨hsource, taken, hrest, hnext⟩ := h
  obtain ⟨hsource', taken', hrest', hnext'⟩ := h'
  refine ⟨hsource'.trans hsource, taken ++ taken', ?_, ?_⟩
  · rw [hrest, hrest', List.append_assoc]
  · rw [hnext', hnext, List.foldl_append]

theorem Passed.length_le (h : Passed s t) : t.rest.length ≤ s.rest.length := by
  obtain ⟨-, taken, hrest, -⟩ := h
  rw [hrest, List.length_append]
  exact Nat.le_add_left _ _

theorem Passed.stands (h : Passed s t) (hs : s.Stands) : t.Stands := by
  obtain ⟨hsource, taken, hrest, hnext⟩ := h
  obtain ⟨seen, hseen, hs⟩ := hs
  refine ⟨seen ++ taken, ?_, ?_⟩
  · rw [hsource, hseen, hrest, List.append_assoc]
  · rw [hnext, hs, Position.foldl_after_behind]

theorem Took.trans (h : Took s t) (h' : Passed t u) (hexiting : u.exiting = t.exiting) :
    Took s u :=
  ⟨h.toPassed.trans h', Nat.lt_of_le_of_lt h'.length_le h.shorter, hexiting.trans h.exiting⟩

theorem State.past_past (s : State) (xs ys xs' ys' : List Char) :
    (s.past xs ys).past xs' ys' = s.past (xs ++ xs') ys' := by
  simp [State.past, List.foldl_append]

theorem passed_past (xs : List Char) {ys : List Char} (h : s.rest = xs ++ ys) :
    Passed s (s.past xs ys) :=
  ⟨rfl, xs, h, rfl⟩

theorem took_past {xs ys : List Char} (h : s.rest = xs ++ ys) (hxs : xs ≠ []) :
    Took s (s.past xs ys) := by
  refine ⟨passed_past xs h, ?_, rfl⟩
  have hlength := List.length_pos_iff.mpr hxs
  rw [h, List.length_append]
  exact Nat.lt_add_of_pos_left hlength

theorem blamable_next (hs : s.Stands) (hrest : s.rest = c :: cs) (hblank : ¬Text.isBlank c)
    (hcomment : c ≠ ';') : s.next.Blamable s.source := by
  obtain ⟨seen, hsource, hnext⟩ := hs
  exact ⟨c, ⟨seen, cs, hrest ▸ hsource, hnext⟩, hblank, hcomment⟩

open Reader.State in
theorem goesOn_cons (h : s.rest = c :: cs) {stack stack' : Stack} {mode : Reader.Mode}
    (htake : take ⟨s.next, .between, stack⟩ c = .ok ⟨s.next, mode, stack'⟩) :
    s.goesOn stack = readRest ⟨s.next.after c, mode, stack'⟩ cs := by
  rw [State.goesOn, h, readRest_cons, htake]
  rfl

open Reader.State in
theorem goesOn_atClosing (h : s.AtClosing) {stack : Stack} (hopen : stack.frames ≠ []) :
    s.goesOn stack = (stack.close s.rest.head?).bind fun t =>
      match s.rest with
      | [] => .ok t.forms.reverse
      | c :: cs => readRest ⟨s.next.after c, .between, t⟩ cs := by
  unfold State.goesOn
  rcases h with hrest | ⟨c, cs, hrest, hc⟩
  · rw [hrest]
    change (stack.close none).map _ = (stack.close none).bind _
    cases stack.close none <;> rfl
  · rw [hrest]
    refine readRest_close hopen (fun s => ?_) cs
    simp only [List.mem_cons, List.not_mem_nil, or_false] at hc
    rcases hc with rfl | rfl | rfl <;> rfl

end Passing

/-- What reading one form comes to, if there is one. -/
inductive One (s : State) : Except Failure Unit × State → Prop
  | given {t : State} (f : Form) : Took s t → t.values = f :: s.values →
      (∀ stack, s.goesOn stack = (Stack.deliver stack.forms stack.frames f).bind t.goesOn) →
      One s (.ok (), t)
  | skipped {t : State} : Took s t → t.values = s.values →
      (∀ stack, s.goesOn stack = (Stack.skip stack.forms stack.frames).bind t.goesOn) →
      One s (.ok (), t)
  | stopped {t : State} : Passed s t → t.AtClosing → t.exiting = true → t.values = s.values →
      (∀ stack, s.goesOn stack = t.goesOn stack) → One s (.ok (), t)
  | failed {t : State} {fault : ReadFault} : t.cursor.Blamable s.source →
      (∀ stack, s.goesOn stack = LispFront.fail stack.frames t.cursor fault) →
      One s (.error (.fault fault), t)

inductive Many (s : State) : Except Failure Unit × State → Prop
  | finished {t : State} (gs : List Form) : Passed s t → t.AtClosing →
      t.values = gs.reverse ++ s.values →
      (∀ stack, stack.Receptive → s.goesOn stack = t.goesOn (stack.giveAll gs)) →
      Many s (.ok (), t)
  | failed {t : State} {fault : ReadFault} : t.cursor.Blamable s.source →
      (∀ stack, stack.Receptive → s.goesOn stack = LispFront.fail stack.frames t.cursor fault) →
      Many s (.error (.fault fault), t)

/-- On texts shorter than `n` characters `inner` reads forms as far as the flag says. -/
structure Sound (n : Nat) (inner : DescentM Unit) : Prop where
  one : ∀ s : State, s.Stands → s.rest.length < n → s.exiting = true → One s (inner.run.run s)
  many : ∀ s : State, s.Stands → s.rest.length < n → s.exiting = false → Many s (inner.run.run s)

end Descent

end LispFront
