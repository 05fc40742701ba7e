import LispFront.Proofs.Reader.Descent.Nested

/-!
# Reading by descent is reading

The loop over the forms goes through the levels of calls, of which there are more than characters.
So whatever is read by descent is what the reader with a stack reads, the failures that do not tell
of the text never come up, and errors are blamed on something in the text.
-/

namespace LispFront

namespace Descent

structure Skips (s u : State) : Prop extends Took s u where
  values : u.values = s.values
  goesOn : ∀ stack, s.goesOn stack = u.goesOn stack

section Loop

variable {n : Nat} {s u : State} {c : Char} {cs : List Char} {r : Except Failure Unit × State}

theorem one_of_skips (h : Skips s u) (hone : One u r) : One s r := by
  cases hone with
  | given f htook hvalues hgo =>
    exact .given f (h.toTook.trans htook.toPassed htook.exiting)
      (hvalues.trans (congrArg (f :: ·) h.values)) fun stack => (h.goesOn stack).trans (hgo stack)
  | skipped htook hvalues hgo =>
    exact .skipped (h.toTook.trans htook.toPassed htook.exiting) (hvalues.trans h.values)
      fun stack => (h.goesOn stack).trans (hgo stack)
  | stopped hpassed hclosing hexiting hvalues hgo =>
    exact .stopped (h.toPassed.trans hpassed) hclosing hexiting (hvalues.trans h.values)
      fun stack => (h.goesOn stack).trans (hgo stack)
  | failed hcursor hgo =>
    exact .failed (h.source ▸ hcursor) fun stack => (h.goesOn stack).trans (hgo stack)

theorem many_of_passed (hpassed : Passed s u) (hvalues : u.values = s.values)
    (hgo : ∀ stack, stack.Receptive → s.goesOn stack = u.goesOn stack) (hmany : Many u r) :
    Many s r := by
  cases hmany with
  | finished gs hpassed' hclosing hgs hgo' =>
    exact .finished gs (hpassed.trans hpassed') hclosing (hvalues ▸ hgs)
      fun stack hstack => (hgo stack hstack).trans (hgo' stack hstack)
  | failed hcursor hgo' =>
    exact .failed (hpassed.source ▸ hcursor) fun stack hstack =>
      (hgo stack hstack).trans (hgo' stack hstack)

theorem skips_blanks (hrest : s.rest = c :: cs) (hblank : Text.isBlank c) :
    Skips s (s.past (s.rest.takeWhile Text.isBlank) (s.rest.dropWhile Text.isBlank)) where
  toTook := by
    refine took_past List.takeWhile_append_dropWhile.symm ?_
    rw [hrest, List.takeWhile_cons_of_pos hblank]
    exact List.cons_ne_nil _ _
  values := rfl
  goesOn stack := Reader.State.readRest_blanks s.next stack s.rest

open Reader.State in
theorem run_skipComment (hrest : s.rest = ';' :: cs) :
    ∃ u, Skips s u ∧ skipComment.run.run s = (.ok (), u) := by
  have hspan : s.rest = (';' :: cs.takeWhile (· != '\n')) ++ cs.dropWhile (· != '\n') := by
    rw [hrest, List.cons_append, List.takeWhile_append_dropWhile]
  have hcomment (stack : Stack) : s.goesOn stack =
      readRest ⟨s.next.after ';', .comment, stack⟩ cs := goesOn_cons hrest rfl
  have hgo (stack : Stack) := (hcomment stack).trans (readRest_comment _ stack cs)
  have hskip : (s.past (s.rest.takeWhile (· != '\n')) (s.rest.dropWhile (· != '\n'))) =
      s.past (';' :: cs.takeWhile (· != '\n')) (cs.dropWhile (· != '\n')) := by
    rw [hrest]
    rfl
  unfold skipComment
  rw [run_skipWhile, hskip]
  cases hds : cs.dropWhile (· != '\n') with
  | nil =>
    rw [run_bind_ok (run_advance_nil rfl)]
    rw [hds] at hspan hgo
    exact ⟨_, ⟨took_past hspan (List.cons_ne_nil _ _), rfl, hgo⟩, rfl⟩
  | cons d ds =>
    rw [run_bind_ok (run_advance rfl), State.past_past]
    rw [hds] at hspan hgo
    have hd : d = '\n' := by
      have hhead := List.head?_dropWhile_not (· != '\n') cs
      rw [hds] at hhead
      simpa using hhead
    refine ⟨_, ⟨took_past (by rw [hspan]; simp) (by simp), rfl, fun stack => ?_⟩, rfl⟩
    rw [hgo, readRest_cons, take, if_pos hd, State.goesOn, State.past, List.foldl_append]
    rfl

theorem blame_give {stack : Stack} (h : stack.Receptive) (f : Form) (p : Position) :
    LispFront.blame p (stack.give f).frames = LispFront.blame p stack.frames := by
  obtain ⟨frames, forms⟩ := stack
  rcases h with rfl | ⟨b, start, elems, fs, rfl⟩
  · rfl
  · cases b <;> rfl

theorem many_of_given {f : Form} (hpassed : Passed s u) (hvalues : u.values = f :: s.values)
    (hgo : ∀ stack, s.goesOn stack = (Stack.deliver stack.forms stack.frames f).bind u.goesOn)
    (hmany : Many u r) : Many s r := by
  have hgo (stack : Stack) (hstack : stack.Receptive) :
      s.goesOn stack = u.goesOn (stack.give f) := by
    rw [hgo, Stack.deliver_of_receptive hstack]
    rfl
  cases hmany with
  | finished gs hpassed' hclosing hvalues' hgo' =>
    refine .finished (f :: gs) (hpassed.trans hpassed') hclosing ?_ fun stack hstack => ?_
    · rw [hvalues', hvalues]
      simp
    · exact (hgo stack hstack).trans (hgo' _ (Stack.receptive_give hstack f))
  | failed hcursor hgo' =>
    refine .failed (hpassed.source ▸ hcursor) fun stack hstack => ?_
    rw [hgo stack hstack, hgo' _ (Stack.receptive_give hstack f), LispFront.fail, LispFront.fail,
      blame_give hstack]

theorem skip_of_receptive {stack : Stack} (h : stack.Receptive) :
    Stack.skip stack.forms stack.frames = .ok stack := by
  obtain ⟨frames, forms⟩ := stack
  rcases h with rfl | ⟨b, start, elems, fs, rfl⟩
  · rfl
  · rfl

theorem run_readForms_nil (hrest : s.rest = []) (n : Nat) :
    (readForms (n + 1)).run.run s = (.ok (), s) := by
  rw [readForms, run_get, hrest]
  rfl

theorem run_readForms (hinner : Sound n (readForms n)) (hs : s.Stands)
    (hrest : s.rest = c :: cs) (hn : s.rest.length < n + 1) :
    (∃ u, Skips s u ∧ (readForms (n + 1)).run.run s = (readForms n).run.run u) ∨
    ∃ r, One s r ∧ (readForms (n + 1)).run.run s =
      match r with
      | (.ok _, t) => if t.exiting then (.ok (), t) else (readForms n).run.run t
      | (.error e, t) => (.error e, t) := by
  rw [hrest, List.length_cons] at hn
  rw [readForms, run_get, hrest]
  dsimp only
  by_cases hblank : Text.isBlank c
  · refine .inl ⟨_, skips_blanks hrest hblank, ?_⟩
    rw [if_pos hblank, run_skipWhile]
  · by_cases hcomment : c = ';'
    · subst hcomment
      obtain ⟨u, hu, hrun⟩ := run_skipComment hrest
      refine .inl ⟨u, hu, ?_⟩
      rw [if_neg hblank, if_pos rfl, run_bind_ok hrun]
    · have hone := one_readForm hinner hs hrest (Nat.lt_of_succ_lt_succ hn) hblank hcomment
      refine .inr ⟨_, hone, ?_⟩
      rw [if_neg hblank, if_neg hcomment, run_bind]
      rcases (readForm (readForms n) c s.next).run.run s with ⟨e | a, t⟩
      · rfl
      · dsimp only
        rw [run_get]
        cases t.exiting <;> rfl

section Step

variable (hinner : Sound n (readForms n)) (hs : s.Stands) (hn : s.rest.length < n + 1)
include hinner hs hn

theorem one_readForms (hexiting : s.exiting = true) :
    One s ((readForms (n + 1)).run.run s) := by
  cases hrest : s.rest with
  | nil =>
    rw [run_readForms_nil hrest]
    exact .stopped (Passed.refl s) (.inl hrest) hexiting rfl fun _ => rfl
  | cons c cs =>
    rcases run_readForms hinner hs hrest hn with ⟨u, hu, hrun⟩ | ⟨r, hone, hrun⟩
    · rw [hrun]
      have hless := Nat.lt_of_lt_of_le hu.shorter (Nat.le_of_lt_succ hn)
      exact one_of_skips hu (hinner.one u (hu.stands hs) hless (hu.exiting.trans hexiting))
    · rw [hrun]
      cases hone with
      | given f htook hvalues hgo =>
        dsimp only
        rw [if_pos (htook.exiting.trans hexiting)]
        exact .given f htook hvalues hgo
      | skipped htook hvalues hgo =>
        dsimp only
        rw [if_pos (htook.exiting.trans hexiting)]
        exact .skipped htook hvalues hgo
      | stopped hpassed hclosing hstop hvalues hgo =>
        dsimp only
        rw [if_pos hstop]
        exact .stopped hpassed hclosing hstop hvalues hgo
      | failed hcursor hgo => exact .failed hcursor hgo

theorem many_readForms (hexiting : s.exiting = false) :
    Many s ((readForms (n + 1)).run.run s) := by
  -- the loop goes on from where something was taken
  have hagain {t : State} (htook : Took s t) : t.exiting = false ∧
      Many t ((readForms n).run.run t) := by
    have hon : t.exiting = false := htook.exiting.trans hexiting
    have hless := Nat.lt_of_lt_of_le htook.shorter (Nat.le_of_lt_succ hn)
    exact ⟨hon, hinner.many t (htook.stands hs) hless hon⟩
  cases hrest : s.rest with
  | nil =>
    rw [run_readForms_nil hrest]
    exact .finished [] (Passed.refl s) (.inl hrest) rfl fun _ _ => rfl
  | cons c cs =>
    rcases run_readForms hinner hs hrest hn with ⟨u, hu, hrun⟩ | ⟨r, hone, hrun⟩
    · rw [hrun]
      exact many_of_passed hu.toPassed hu.values (fun stack _ => hu.goesOn stack)
        (hagain hu.toTook).2
    · rw [hrun]
      cases hone with
      | @given t f htook hvalues hgo =>
        obtain ⟨hon, hmany⟩ := hagain htook
        dsimp only
        rw [if_neg (by simp [hon])]
        exact many_of_given htook.toPassed hvalues hgo hmany
      | @skipped t htook hvalues hgo =>
        obtain ⟨hon, hmany⟩ := hagain htook
        dsimp only
        rw [if_neg (by simp [hon])]
        refine many_of_passed htook.toPassed hvalues (fun stack hstack => ?_) hmany
        rw [hgo, skip_of_receptive hstack]
        rfl
      | stopped hpassed hclosing hstop hvalues hgo =>
        dsimp only
        rw [if_pos hstop]
        exact .finished [] hpassed hclosing hvalues fun stack _ => hgo stack
      | failed hcursor hgo => exact .failed hcursor fun stack _ => hgo stack

end Step

/-- The calls are deep enough for texts with fewer characters than levels. -/
theorem sound_readForms (n : Nat) : Sound n (readForms n) := by
  induction n with
  | zero =>
    exact ⟨fun _ _ h => absurd h (Nat.not_lt_zero _), fun _ _ h => absurd h (Nat.not_lt_zero _)⟩
  | succ n ih =>
    exact ⟨fun _ hs hn => one_readForms ih hs hn, fun _ hs hn => many_readForms ih hs hn⟩

end Loop

theorem dropBytes_of_splitBytes {n : Nat} {cs xs ys : List Char}
    (h : splitBytes n cs = some (xs, ys)) : dropBytes n cs = ys := by
  fun_induction splitBytes n cs generalizing xs with
  | case1 =>
    cases h
    rw [dropBytes]
  | case2 => cases h
  | case3 n c cs _ ih =>
    obtain ⟨⟨xs', ys'⟩, hcs, hxs⟩ := Option.map_eq_some_iff.mp h
    cases hxs
    exact ih hcs
  | case4 => cases h

theorem read_of_readAll (source : String) :
    match (readAll (source.length + 1)).run.run (.initial source.toList) with
    | (.ok _, s) => read source = .ok s.values.reverse
    | (.error failure, s) => ∃ fault, failure = .fault fault ∧
      s.cursor.Blamable source.toList ∧ read source = .error ⟨fault, s.cursor.offset⟩ := by
  have hstands : (State.initial source.toList).Stands := ⟨[], rfl, rfl⟩
  have hlength : source.toList.length < source.length + 1 := by
    rw [String.length_toList]
    exact Nat.lt_succ_self _
  have hmany := (sound_readForms (source.length + 1)).many _ hstands hlength rfl
  unfold readAll
  generalize hr : (readForms (source.length + 1)).run.run _ = r at hmany
  cases hmany with
  | failed hcursor hgo =>
    rw [run_bind_error hr]
    exact ⟨_, rfl, hcursor, hgo ⟨[], []⟩ (.inl rfl)⟩
  | @finished t gs hpassed hclosing hvalues hgo =>
    rw [run_bind_ok hr]
    have hgo : read source = t.goesOn ⟨[], gs.reverse ++ []⟩ :=
      (hgo ⟨[], []⟩ (.inl rfl)).trans (by rw [Stack.giveAll_top])
    rcases hclosing with hrest | ⟨c, cs, hrest, hc⟩
    · rw [run_bind_ok (run_advance_nil hrest)]
      change read source = .ok t.values.reverse
      rw [hgo, State.goesOn, hrest, hvalues]
      rfl
    · rw [run_bind_ok (run_advance hrest)]
      have hnot : ¬Text.isBlank c ∧ c ≠ ';' := by
        simp only [List.mem_cons, List.not_mem_nil, or_false] at hc
        rcases hc with rfl | rfl | rfl <;> exact ⟨by decide, by decide⟩
      have hblame := blamable_next (hpassed.stands hstands) hrest hnot.1 hnot.2
      rw [hpassed.source] at hblame
      refine ⟨.unexpected c, rfl, hblame, hgo.trans ?_⟩
      rw [State.goesOn, hrest, Reader.State.readRest_cons]
      simp only [List.mem_cons, List.not_mem_nil, or_false] at hc
      rcases hc with rfl | rfl | rfl <;> rfl

end Descent

open Descent in
/-- Reading comes to an end without a failure that does not tell of the text, and it blames a place
in the text at which there is something other than a blank or a comment. -/
theorem read_safe (source : String) :
    readByDescent source = (read source).mapError (fun e => (.fault e.fault, e.offset)) ∧
    (∀ failure n, readByDescent source = .error (failure, n) → ∃ fault, failure = .fault fault) ∧
    ∀ e, read source = .error e → e.offset < source.utf8ByteSize ∧
      ∃ before c after, source.toList = before ++ c :: after ∧
        e.offset = (String.ofList before).utf8ByteSize ∧
        e.context source = String.ofList (c :: after) ∧ ¬Text.isBlank c ∧ c ≠ ';' := by
  have hread := read_of_readAll source
  unfold readByDescent
  generalize (readAll (source.length + 1)).run.run _ = r at hread
  obtain ⟨failure | a, s⟩ := r
  · obtain ⟨fault, rfl, ⟨c, ⟨before, after, hsource, hbefore⟩, hblank, hcomment⟩, hread⟩ := hread
    rw [hread]
    refine ⟨rfl, fun failure n h => ?_, fun e he => ?_⟩
    · cases h
      exact ⟨fault, rfl⟩
    · cases he
      have hcut := dropBytes_of_splitBytes (splitBytes_behind before (c :: after))
      rw [← hsource, ← hbefore] at hcut
      have hoffset : s.cursor.offset = (String.ofList before).utf8ByteSize := by
        rw [hbefore, Position.offset_behind]
      have hlength : source.utf8ByteSize = (String.ofList before).utf8ByteSize +
          (c.utf8Size + (String.ofList after).utf8ByteSize) := by
        rw [← String.ofList_toList (s := source), hsource, String.ofList_append, String.ofList_cons,
          String.utf8ByteSize_append, String.utf8ByteSize_append, String.utf8ByteSize_singleton]
      have hpos := Char.utf8Size_pos c
      exact ⟨by dsimp only; omega, before, c, after, hsource, hoffset, congrArg String.ofList hcut,
        hblank, hcomment⟩
  · dsimp only at hread ⊢
    rw [hread]
    exact ⟨rfl, nofun, nofun⟩

example : readByDescent "(é [a" = .error (.fault (.unbalanced ']'), 4) := by rfl

end LispFront
