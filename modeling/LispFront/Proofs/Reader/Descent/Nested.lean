import LispFront.Proofs.Reader.Descent.Literals

/-!
# Brackets and marks by descent

As long as a level of calls reads what it should, so does a form that is read with its help: the
call stands for a frame of the reader with a stack, with the values of the call in it.
-/

namespace LispFront.Descent

/-- What reading a form for a frame comes to: what the frame makes of it goes to what is open below,
and a failure is blamed there on what `via` makes of the cursor. -/
inductive Through (fr : Frame) (via : Position → Position) (s : State) :
    Except Failure Unit × State → Prop
  | given {t : State} (f : Form) : Passed s t → t.exiting = s.exiting → t.values = f :: s.values →
      (∀ stack : Stack, s.goesOn (stack.push fr) =
        (Stack.deliver stack.forms stack.frames f).bind t.goesOn) → Through fr via s (.ok (), t)
  | failed {t : State} {fault : ReadFault} : t.cursor.Blamable s.source →
      (∀ stack : Stack, s.goesOn (stack.push fr) =
        LispFront.fail stack.frames (via t.cursor) fault) →
      Through fr via s (.error (.fault fault), t)

variable {n : Nat} {inner : DescentM Unit} {s : State} {c : Char} {cs : List Char}

theorem goesOn_collected {u t : State} {gs : List Form} (hclosing : t.AtClosing)
    (hgo : ∀ stack : Stack, stack.Receptive → u.goesOn stack = t.goesOn (stack.giveAll gs))
    (b : Bracket) (start : Position) (stack : Stack) :
    u.goesOn (stack.push (.collecting b start [])) =
      match b.gather start gs with
      | .error fault => LispFront.fail stack.frames start fault
      | .ok f =>
        if t.rest.head? = some b.closing then
          (Stack.deliver stack.forms stack.frames f).bind fun stack =>
            State.goesOn (t.past [b.closing] t.rest.tail) stack
        else LispFront.fail stack.frames start (.unbalanced b.closing) := by
  rw [hgo _ (Stack.receptive_push _ _ _ _), Stack.push, Stack.giveAll_collecting,
    goesOn_atClosing hclosing (List.cons_ne_nil _ _), Stack.close]
  simp only [List.append_nil, List.reverse_reverse]
  cases b.gather start gs with
  | error fault => rfl
  | ok f =>
    dsimp only
    by_cases hc : t.rest.head? = some b.closing
    · obtain ⟨ds, hds⟩ := List.head?_eq_some_iff.mp hc
      rw [if_pos hc, if_pos hc, hds]
      rfl
    · rw [if_neg hc, if_neg hc]
      rfl

theorem through_readCollection (hinner : Sound n inner) (hs : s.Stands) (hrest : s.rest = c :: cs)
    (hn : cs.length < n) {b : Bracket} (start : Position)
    (hstart : start = s.next ∨ b = .hashCurly) (hblame : s.next.Blamable s.source) :
    Through (.collecting b start []) ((Frame.collecting b start []).blamed?.getD ·) (s.past [c] cs)
      ((readCollection inner b).run.run s) := by
  have hblamed : (Frame.collecting b start []).blamed?.getD s.next = start := by
    rcases hstart with rfl | rfl
    · cases b <;> rfl
    · rfl
  have hgather (gs : List Form) : b.gather s.next gs = b.gather start gs := by
    rcases hstart with rfl | rfl
    · rfl
    · rfl
  have hpassed : Passed s (s.past [c] cs) := passed_past [c] hrest
  unfold readCollection
  rw [run_bind_ok (run_advance hrest)]
  dsimp only
  rw [run_blame, run_get, run_setExiting]
  have hmany := hinner.many { s.past [c] cs with cursor := s.next, exiting := false }
    (hpassed.stands hs) hn rfl
  generalize hr : inner.run.run _ = r at hmany
  cases hmany with
  | failed hcursor hgo =>
    rw [run_bind_error hr]
    exact .failed hcursor fun stack => hgo _ (Stack.receptive_push _ _ _ _)
  | @finished t gs htaken hclosing hvalues hgo =>
    have hdrain : State.values { t with exiting := s.exiting } = gs.reverse ++ s.values := hvalues
    have hgo := goesOn_collected hclosing hgo b start
    rw [run_bind_ok hr, run_setExiting]
    dsimp only [State.past]
    rw [run_bind_ok (run_drain hdrain), hgather]
    cases hf : b.gather start gs with
    | error fault =>
      simp only [hf] at hgo
      refine .failed hblame fun stack => ?_
      rw [hblamed]
      exact hgo stack
    | ok f =>
      simp only [hf] at hgo
      dsimp only
      rw [run_push]
      by_cases hc : t.rest.head? = some b.closing
      · obtain ⟨ds, hds⟩ := List.head?_eq_some_iff.mp hc
        simp only [if_pos hc] at hgo
        rw [run_expectClosing (s := { t with exiting := s.exiting, values := f :: s.values }) hds]
        have hbehind := htaken.trans (passed_past [b.closing] hds)
        rw [hds] at hgo
        exact .given f ⟨hbehind.source, hbehind.taken⟩ rfl rfl hgo
      · simp only [if_neg hc] at hgo
        obtain ⟨u, hu, hrun⟩ := run_expectClosing_error (s := { t with
          exiting := s.exiting, values := f :: s.values }) hc s.next
        rw [hrun]
        refine .failed (hu ▸ hblame) fun stack => ?_
        rw [hu, hblamed]
        exact hgo stack

theorem through_blaming {fr : Frame} {via : Position → Position} {u : State} {start : Position}
    {x : DescentM Unit} (h : Through fr via u (x.run.run s)) (hvia : ∀ p, via p = start)
    (hblame : start.Blamable u.source) : Through fr id u ((blaming start x).run.run s) := by
  rw [run_blaming]
  generalize x.run.run s = r at h
  cases h with
  | given f hpassed hexiting hvalues hgo => exact .given f hpassed hexiting hvalues hgo
  | failed _ hgo =>
    refine .failed hblame fun stack => ?_
    rw [hgo, hvia]
    rfl

theorem one_of_through {fr : Frame} {u : State} {r : Except Failure Unit × State} (htook : Took s u)
    (hvalues : u.values = s.values)
    (hgo : ∀ stack : Stack, s.goesOn stack = u.goesOn (stack.push fr)) (h : Through fr id u r) :
    One s r := by
  cases h with
  | given f hpassed hexiting hf hfr =>
    exact .given f (htook.trans hpassed hexiting) (hf.trans (congrArg (f :: ·) hvalues))
      fun stack => (hgo stack).trans (hfr stack)
  | failed hcursor hfr =>
    exact .failed (htook.source ▸ hcursor) fun stack => (hgo stack).trans (hfr stack)

inductive Waits (start : Position) : Frame → Prop
  | awaiting (mark : Mark) : Waits start (.awaiting mark start)
  | decorating (m : FormMap) : Waits start (.decorating m start)

inductive Waited (start : Position) (s : State) : Except Failure Unit × State → Prop
  | given {t : State} (f : Form) : Passed s t → t.exiting = s.exiting → t.values = f :: s.values →
      (∀ (fr : Frame) (stack : Stack), Waits start fr → s.goesOn (stack.push fr) =
        (Stack.deliver stack.forms (fr :: stack.frames) f).bind t.goesOn) →
      Waited start s (.ok (), t)
  | failed {t : State} {fault : ReadFault} : t.cursor = start →
      (∀ (fr : Frame) (stack : Stack), Waits start fr →
        s.goesOn (stack.push fr) = LispFront.fail stack.frames start fault) →
      Waited start s (.error (.fault fault), t)

theorem waited_readOne (hinner : Sound n inner) (hs : s.Stands) (hn : s.rest.length < n)
    (start : Position) : Waited start s ((readOne inner start).run.run s) := by
  unfold readOne
  rw [run_blame, run_get, run_setExiting, run_bind, run_blaming]
  have hone := hinner.one { s with cursor := start, exiting := true } hs hn rfl
  generalize inner.run.run _ = r at hone
  cases hone with
  | @given t f htook hvalues hgo =>
    dsimp only
    rw [run_setExiting, run_get]
    have hlength : t.values.length = s.values.length + 1 := congrArg List.length hvalues
    dsimp only
    rw [if_neg (by omega), if_neg (by omega), if_neg (by omega)]
    exact .given f ⟨htook.source, htook.taken⟩ rfl hvalues fun fr stack _ => hgo (stack.push fr)
  | @skipped t htook hvalues hgo =>
    dsimp only
    rw [run_setExiting, run_get]
    have hlength : t.values.length = s.values.length := congrArg List.length hvalues
    dsimp only
    rw [if_pos hlength]
    refine .failed rfl fun fr stack hfr => ?_
    cases hfr <;> exact hgo (stack.push _)
  | @stopped t htook hclosing _ hvalues hgo =>
    dsimp only
    rw [run_setExiting, run_get]
    have hlength : t.values.length = s.values.length := congrArg List.length hvalues
    dsimp only
    rw [if_pos hlength]
    refine .failed rfl fun fr stack hfr => (hgo (stack.push fr)).trans ?_
    rw [goesOn_atClosing hclosing (List.cons_ne_nil _ _)]
    cases hfr <;> rfl
  | failed hcursor hgo =>
    refine .failed rfl fun fr stack hfr => (hgo (stack.push fr)).trans ?_
    cases hfr <;> rfl

theorem Through.of_passed {fr fr' : Frame} {t : State} {r : Except Failure Unit × State}
    (h : Through fr' id t r) (hpassed : Passed s t) (hexiting : t.exiting = s.exiting)
    (hvalues : t.values = s.values)
    (hgo : ∀ stack : Stack, s.goesOn (stack.push fr) = t.goesOn (stack.push fr')) :
    Through fr id s r := by
  cases h with
  | given f hpassed' hexiting' hf hfr =>
    exact .given f (hpassed.trans hpassed') (hexiting'.trans hexiting)
      (hf.trans (congrArg (f :: ·) hvalues)) fun stack => (hgo stack).trans (hfr stack)
  | failed hcursor hfr =>
    exact .failed (hpassed.source ▸ hcursor) fun stack => (hgo stack).trans (hfr stack)

section Marks

variable (hinner : Sound n inner) (hs : s.Stands) (hn : s.rest.length < n) {start : Position}
  (hblame : start.Blamable s.source)
include hinner hs hn hblame

theorem through_readOne {fr : Frame} (hfr : Waits start fr) {x : Form → DescentM Unit}
    (hx : ∀ t f, Passed s t → t.exiting = s.exiting → t.values = s.values →
      (∀ stack : Stack, s.goesOn (stack.push fr) =
        (Stack.deliver stack.forms (fr :: stack.frames) f).bind t.goesOn) →
      Through fr id s ((x f).run.run t)) :
    Through fr id s ((readOne inner start >>= fun _ => pop >>= x).run.run s) := by
  have hone := waited_readOne hinner hs hn start
  generalize hr : (readOne inner start).run.run s = r at hone
  cases hone with
  | given f hpassed hexiting hvalues hgo =>
    rw [run_bind_ok hr, run_bind_ok (run_pop hvalues)]
    exact hx _ f ⟨hpassed.source, hpassed.taken⟩ hexiting rfl fun stack => hgo fr stack hfr
  | failed hcursor hgo =>
    rw [run_bind_error hr]
    refine .failed (hcursor ▸ hblame) fun stack => ?_
    rw [hgo fr stack hfr, hcursor]
    rfl

theorem through_readMark {name : String} {mark : Mark}
    (hmark : ∀ forms frames f, Stack.deliver forms (.awaiting mark start :: frames) f =
      Stack.deliver forms frames (.call name [f])) :
    Through (.awaiting mark start) id s ((readMark inner name start).run.run s) := by
  unfold readMark
  refine through_readOne hinner hs hn hblame (.awaiting mark)
    fun t f hpassed hexiting hvalues hgo => ?_
  refine .given (.call name [f]) ⟨hpassed.source, hpassed.taken⟩ hexiting
    (congrArg (Form.call name [f] :: ·) hvalues) fun stack => ?_
  rw [hgo, hmark]
  rfl

theorem through_readVar :
    Through (.awaiting .var start) id s ((readVar inner start).run.run s) := by
  unfold readVar
  refine through_readOne hinner hs hn hblame (.awaiting .var)
    fun t f hpassed hexiting hvalues hgo => ?_
  cases f with
  | symbol name m =>
    exact .given (.call "var" [.symbol name m]) ⟨hpassed.source, hpassed.taken⟩ hexiting
      (congrArg (Form.call "var" [.symbol name m] :: ·) hvalues) hgo
  | _ => exact .failed hblame hgo

theorem through_readMetadata :
    Through (.awaiting .metadata start) id s ((readMetadata inner start).run.run s) := by
  unfold readMetadata
  refine through_readOne hinner hs hn hblame (.awaiting .metadata)
    fun t f hpassed hexiting hvalues hgo => ?_
  cases hm : f.asMetadata? with
  | none =>
    simp only [Stack.deliver, hm] at hgo
    exact .failed hblame hgo
  | some m =>
    simp only [Stack.deliver, hm] at hgo
    have hshorter := Nat.lt_of_le_of_lt hpassed.length_le hn
    have hblame' : start.Blamable t.source := hpassed.source ▸ hblame
    -- the frame waits for what the metadata is for, and is another one now
    refine Through.of_passed (?_ : Through (.decorating m start) id t _) hpassed hexiting
      hvalues hgo
    refine through_readOne hinner (hpassed.stands hs) hshorter hblame' (.decorating m)
      fun u g hpassed' hexiting' hvalues' hgo' => ?_
    cases hg : g.withMetadata? (FormMap.merge g.metadata m) with
    | none =>
      simp only [Stack.deliver, hg] at hgo'
      exact .failed hblame' hgo'
    | some g' =>
      simp only [Stack.deliver, hg] at hgo'
      exact .given g' ⟨hpassed'.source, hpassed'.taken⟩ hexiting'
        (congrArg (g' :: ·) hvalues') hgo'

end Marks

theorem one_readDiscard (hinner : Sound n inner) (hs : s.Stands) (hn : s.rest.length < n)
    {s₀ : State} (htook : Took s₀ s) (hvalues : s.values = s₀.values) {start : Position}
    (hblame : start.Blamable s₀.source)
    (hgo : ∀ stack : Stack, s₀.goesOn stack = s.goesOn (stack.push (.awaiting .discard start))) :
    One s₀ ((readDiscard inner start).run.run s) := by
  have hone := waited_readOne hinner hs hn start
  unfold readDiscard
  generalize hr : (readOne inner start).run.run s = r at hone
  cases hone with
  | @given t f hpassed hexiting hf hgo' =>
    rw [run_bind_ok hr, run_bind_ok (run_pop hf)]
    refine .skipped (t := { t with values := s.values })
      (htook.trans ⟨hpassed.source, hpassed.taken⟩ hexiting) hvalues fun stack => ?_
    exact (hgo stack).trans (hgo' _ stack (.awaiting .discard))
  | failed hcursor hgo' =>
    rw [run_bind_error hr]
    refine .failed (hcursor ▸ hblame) fun stack => ?_
    rw [hgo, hgo' _ stack (.awaiting .discard), hcursor]

open Reader.State in
theorem one_readDispatch (hinner : Sound n inner) (hs : s.Stands) (hrest : s.rest = '#' :: cs)
    (hn : cs.length < n) (hblame : s.next.Blamable s.source) :
    One s ((readDispatch inner s.next).run.run (s.past ['#'] cs)) := by
  have hgo (stack : Stack) : s.goesOn stack =
      readRest ⟨s.next.after '#', .dispatch s.next, stack⟩ cs := goesOn_cons hrest rfl
  have htook : Took s (s.past ['#'] cs) := took_past hrest (List.cons_ne_nil _ _)
  have hbehind := htook.stands hs
  unfold readDispatch
  rw [run_blame, run_get]
  dsimp only [State.past]
  cases cs with
  | nil => exact .failed hblame hgo
  | cons d ds =>
    have hgo (stack : Stack) := (hgo stack).trans (readRest_cons _ d ds)
    have hds : ds.length < n := Nat.lt_of_succ_lt hn
    have htook' : Took s (State.past { s with cursor := s.next } ['#', d] ds) := by
      have hpast : Took s (s.past ['#', d] ds) := took_past hrest (List.cons_ne_nil _ _)
      exact ⟨⟨hpast.source, hpast.taken⟩, hpast.shorter, hpast.exiting⟩
    split
    · rename_i heq
      cases heq
    · rename_i heq
      cases heq
      have hbrace :=
        blamable_next (s := s.past ['#'] ('{' :: ds)) hbehind rfl (by decide) (by decide)
      have hset := through_readCollection (s := { s.past ['#'] ('{' :: ds) with cursor := s.next })
        hinner hbehind rfl hds s.next (.inr rfl) hbrace
      exact one_of_through htook' rfl hgo (through_blaming hset (fun _ => rfl) hblame)
    · rename_i heq
      cases heq
      exact one_readRegex hs hrest hblame
    · rename_i heq
      cases heq
      rw [run_bind_ok (run_advance rfl)]
      exact one_of_through htook' rfl hgo
        (through_readVar hinner (htook'.stands hs) hds hblame)
    · rename_i heq
      cases heq
      rw [run_bind_ok (run_advance rfl)]
      exact one_readDiscard hinner (htook'.stands hs) hds htook' rfl hblame hgo
    · rename_i e es hset hregex hvar hdiscard heq
      cases heq
      have hunknown (u : Reader.State) :
          u.dispatch s.next d = u.fail s.next (.unknownDispatch d) := by
        unfold dispatch
        split
        · exact (hset rfl).elim
        · exact (hregex rfl).elim
        · exact (hvar rfl).elim
        · exact (hdiscard rfl).elim
        · rfl
      refine .failed hblame fun stack => (hgo stack).trans ?_
      change (dispatch _ s.next d).bind _ = _
      rw [hunknown]
      rfl

theorem one_readForm (hinner : Sound n inner) (hs : s.Stands) (hrest : s.rest = c :: cs)
    (hn : cs.length < n) (hblank : ¬Text.isBlank c) (hcomment : c ≠ ';') :
    One s ((readForm inner c s.next).run.run s) := by
  have hblame := blamable_next hs hrest hblank hcomment
  have htook : Took s (s.past [c] cs) := took_past hrest (List.cons_ne_nil _ _)
  have hbehind := htook.stands hs
  have hclosing (hc : c ∈ [')', ']', '}']) : One s ((setExiting true).run.run s) :=
    .stopped ⟨rfl, [], rfl, rfl⟩ (.inr ⟨c, cs, hrest, hc⟩) rfl rfl fun _ => rfl
  have hcollection {b : Bracket} (hb : b ≠ .hashCurly) (hbegin : ∀ u : Reader.State,
      u.begin c = .ok (u.openFrame (.collecting b u.next []))) :
      One s ((readCollection inner b).run.run s) := by
    have hthrough := through_readCollection hinner hs hrest hn (b := b) s.next (.inl rfl) hblame
    have hvia : ((Frame.collecting b s.next []).blamed?.getD ·) = id := by
      cases b <;> first | rfl | contradiction
    rw [hvia] at hthrough
    have hgo (stack : Stack) : s.goesOn stack =
        (s.past [c] cs).goesOn (stack.push (.collecting b s.next [])) :=
      goesOn_cons hrest (hbegin ⟨s.next, .between, stack⟩)
    exact one_of_through htook rfl hgo hthrough
  have hmark {mark : Mark} {x : DescentM Unit} (hbegin : ∀ u : Reader.State,
      u.begin c = .ok (u.openFrame (.awaiting mark u.next)))
      (hx : Through (.awaiting mark s.next) id (s.past [c] cs) (x.run.run (s.past [c] cs))) :
      One s ((advance >>= fun _ => x).run.run s) := by
    rw [run_bind_ok (run_advance hrest)]
    have hgo (stack : Stack) : s.goesOn stack =
        (s.past [c] cs).goesOn (stack.push (.awaiting mark s.next)) :=
      goesOn_cons hrest (hbegin ⟨s.next, .between, stack⟩)
    exact one_of_through htook rfl hgo hx
  unfold readForm
  split
  · exact hcollection nofun fun _ => rfl
  · exact hcollection nofun fun _ => rfl
  · exact hcollection nofun fun _ => rfl
  · exact hclosing (by simp)
  · exact hclosing (by simp)
  · exact hclosing (by simp)
  · rw [run_bind_ok (run_advance hrest)]
    exact one_readDispatch hinner hs hrest hn hblame
  · exact hmark (fun _ => rfl) (through_readMark hinner hbehind hn hblame fun _ _ _ => rfl)
  · exact hmark (fun _ => rfl) (through_readMark hinner hbehind hn hblame fun _ _ _ => rfl)
  · exact hmark (fun _ => rfl) (through_readMetadata hinner hbehind hn hblame)
  · exact one_readChar hs hrest hblame
  · exact one_readString hs hrest hblame
  · refine one_readAtom hs hrest hblame fun u => ?_
    unfold Reader.State.begin
    rw [if_neg hblank]
    split <;> first | contradiction | rfl

end LispFront.Descent
