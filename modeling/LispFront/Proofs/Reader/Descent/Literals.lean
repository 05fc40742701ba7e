import LispFront.Proofs.Reader.Descent.Outcome

/-!
# Literals by descent

A literal is cut out of the source between two places. What is cut out is what the reader with a
stack has collected when it comes to the end of the literal.
-/

namespace LispFront.Descent

variable {s : State} {c : Char} {cs : List Char}

theorem run_span (h : s.rest = c :: cs) (p : Char → Bool) (f : Unit → DescentM β) :
    (advance >>= fun _ => skipWhile p >>= f).run.run s =
      (f ()).run.run (s.past (c :: cs.takeWhile p) (cs.dropWhile p)) := by
  rw [run_bind_ok (run_advance h), run_skipWhile, State.past_past]
  rfl

open Reader.State in
theorem one_give {xs ys : List Char} {r : Except ReadFault Form} (hrest : s.rest = xs ++ ys)
    (hxs : xs ≠ []) (hblame : s.next.Blamable s.source)
    (hgo : ∀ stack, s.goesOn stack = (stack.complete s.next r).bind fun t =>
      readRest ⟨xs.foldl .after s.next, .between, t⟩ ys) :
    One s ((give r).run.run (State.past { s with cursor := s.next } xs ys)) := by
  obtain ⟨⟨hsource, htaken⟩, hshorter, hexiting⟩ := took_past hrest hxs
  cases r with
  | ok f => exact .given f ⟨⟨hsource, htaken⟩, hshorter, hexiting⟩ rfl hgo
  | error fault => exact .failed hblame hgo

open Reader.State in
theorem one_readAtom (hs : s.Stands) (hrest : s.rest = c :: cs)
    (hblame : s.next.Blamable s.source)
    (hbegin : ∀ u, begin u c = if Text.startsToken c then .ok { u with mode := .token u.next [c] }
      else u.fail u.next (.unexpected c)) : One s ((readAtom c s.next).run.run s) := by
  unfold readAtom
  rw [run_blame]
  by_cases hstart : Text.startsToken c
  · simp only [if_pos hstart] at hbegin ⊢
    rw [run_span (s := { s with cursor := s.next }) hrest]
    obtain ⟨seen, hsource, hnext⟩ := hs
    have hspan : s.rest = (c :: cs.takeWhile Text.continuesToken) ++
        cs.dropWhile Text.continuesToken := by
      rw [hrest, List.cons_append, List.takeWhile_append_dropWhile]
    generalize hu : State.past { s with cursor := s.next } _ _ = u
    have hcut : u.source = seen ++ (c :: cs.takeWhile Text.continuesToken) ++ u.rest := by
      rw [← hu, List.append_assoc]
      exact hsource.trans (congrArg (seen ++ ·) hspan)
    have hstop : u.next = .behind (seen ++ c :: cs.takeWhile Text.continuesToken) := by
      rw [← hu, ← Position.foldl_after_behind, ← hnext]
      rfl
    rw [run_bind_ok (run_offset hcut hstop), hnext, run_bind_ok (run_slice hcut), ← hu]
    refine one_give hspan (List.cons_ne_nil _ _) hblame fun stack => ?_
    exact (goesOn_cons hrest (hbegin _)).trans
      (readRest_collected (fun _ _ _ => rfl) (fun _ _ => rfl) _ [c] cs)
  · simp only [if_neg hstart] at hbegin ⊢
    refine .failed hblame fun stack => ?_
    rw [State.goesOn, hrest, readRest_cons]
    change (begin _ c).bind _ = _
    rw [hbegin]
    rfl

theorem scan_cons (hquote : c ≠ '"') (hescape : c ≠ '\\') (cs : List Char) :
    Text.scan false (c :: cs) = Text.scan false cs := by
  rw [Text.scan, if_neg hquote, beq_false_of_ne hescape]

theorem not_backslash (hlast : c = '\\' → cs = [] → False)
    (hescape : ∀ d ds, c = '\\' → cs = d :: ds → False) : c ≠ '\\' := by
  rintro rfl
  cases cs with
  | nil => exact hlast rfl rfl
  | cons d ds => exact hescape d ds rfl rfl

theorem findQuote_some {p q : Position} {ys : List Char} (h : findQuote p cs = some (q, ys)) :
    ∃ body, cs = body ++ '"' :: ys ∧ q = body.foldl .after p ∧
      Text.scan false body = some false := by
  fun_induction findQuote p cs with
  | case1 => cases h
  | case2 =>
    cases h
    exact ⟨[], rfl, rfl, rfl⟩
  | case3 => cases h
  | case4 p c cs ih =>
    obtain ⟨body, rfl, rfl, hbody⟩ := ih h
    exact ⟨'\\' :: c :: body, rfl, rfl, hbody⟩
  | case5 p c cs hquote hlast hescape ih =>
    obtain ⟨body, rfl, rfl, hbody⟩ := ih h
    exact ⟨c :: body, rfl, rfl, (scan_cons hquote (not_backslash hlast hescape) _).trans hbody⟩

theorem findQuote_none {p : Position} (h : findQuote p cs = none) :
    ∃ escaped, Text.scan false cs = some escaped := by
  fun_induction findQuote p cs with
  | case1 => exact ⟨false, rfl⟩
  | case2 => cases h
  | case3 => exact ⟨true, rfl⟩
  | case4 p c cs ih => exact ih h
  | case5 p c cs hquote hlast hescape ih =>
    rw [scan_cons hquote (not_backslash hlast hescape)]
    exact ih h

theorem closeQuote_cases {xs : List Char} (hsource : s.source = xs ++ s.rest)
    (hnext : s.next = .behind xs) :
    (∃ body ys, s.rest = body ++ '"' :: ys ∧ Text.scan false body = some false ∧
      ∀ f : List Char → DescentM Unit,
        (closeQuote >>= fun stop => slice (Position.behind xs).offset stop >>= f).run.run s =
          (f body).run.run (s.past (body ++ ['"']) ys)) ∨
    (∃ escaped, Text.scan false s.rest = some escaped ∧ ∀ f : Nat → DescentM Unit,
      (closeQuote >>= f).run.run s = (.error (.fault .unclosedString), s)) := by
  cases hfind : findQuote s.next s.rest with
  | none =>
    obtain ⟨escaped, hescaped⟩ := findQuote_none hfind
    refine .inr ⟨escaped, hescaped, fun f => run_bind_error ?_⟩
    unfold closeQuote
    rw [run_get, hfind]
    rfl
  | some r =>
    obtain ⟨q, ys⟩ := r
    obtain ⟨body, hrest, hq, hbody⟩ := findQuote_some hfind
    refine .inl ⟨body, ys, hrest, hbody, fun f => ?_⟩
    have hclose : closeQuote.run.run s =
        (.ok (Position.behind (xs ++ body)).offset, s.past (body ++ ['"']) ys) := by
      rw [← Position.foldl_after_behind, ← hnext, ← hq]
      unfold closeQuote State.past
      rw [run_get, hfind, List.foldl_append, ← hq]
      rfl
    have hcut : (s.past (body ++ ['"']) ys).source = xs ++ body ++ '"' :: ys := by
      rw [List.append_assoc, ← hrest]
      exact hsource
    rw [run_bind_ok hclose, run_bind_ok (run_slice hcut)]

open Reader.State in
theorem one_quoted (opening : List Char) (mode : List Char → Bool → Reader.Mode)
    (make : List Char → Form) (hs : s.Stands) (hrest : s.rest = opening ++ cs)
    (hblame : s.next.Blamable s.source)
    (hon : ∀ stack p seen escaped d, (escaped = true ∨ d ≠ '"') →
      take ⟨p, mode seen escaped, stack⟩ d =
        .ok ⟨p, mode (d :: seen) (!escaped && d == '\\'), stack⟩)
    (hclose : ∀ stack p seen, take ⟨p, mode seen false, stack⟩ '"' =
      deliver ⟨p, mode seen false, stack⟩ (make seen.reverse))
    (hsettle : ∀ stack p seen escaped, settle ⟨p, mode seen escaped, stack⟩ =
      LispFront.fail stack.frames s.next .unclosedString)
    (hgo : ∀ stack, s.goesOn stack =
      readRest ⟨opening.foldl .after s.next, mode [] false, stack⟩ cs) :
    One s ((closeQuote >>= fun stop =>
      slice (s.next.offset + (String.ofList opening).utf8ByteSize) stop >>= fun body =>
        push (make body)).run.run (State.past { s with cursor := s.next } opening cs)) := by
  obtain ⟨seen, hsource, hnext⟩ := hs
  generalize hu : State.past { s with cursor := s.next } opening cs = u
  have hcs : u.rest = cs := by rw [← hu]; rfl
  have husource : u.source = (seen ++ opening) ++ u.rest := by
    rw [← hu, List.append_assoc]
    exact hsource.trans (congrArg (seen ++ ·) hrest)
  have hunext : u.next = .behind (seen ++ opening) := by
    rw [← hu, ← Position.foldl_after_behind, ← hnext]
    rfl
  have hstart : s.next.offset + (String.ofList opening).utf8ByteSize =
      (Position.behind (seen ++ opening)).offset := by
    rw [Position.offset_behind_append, hnext]
  rw [hstart]
  rcases closeQuote_cases husource hunext with ⟨body, ys, hbody, hscan, hrun⟩ | ⟨_, hscan, hrun⟩
  · rw [hrun, ← hu, State.past_past]
    rw [hcs] at hbody
    subst hbody
    refine one_give (r := .ok _) (by simp [hrest]) (by simp) hblame fun stack => ?_
    rw [hgo, readRest_quoted (hon stack) (hclose stack) hscan]
    simp only [List.foldl_append, List.foldl_cons, List.foldl_nil]
    rfl
  · rw [hrun, ← hu]
    rw [hcs] at hscan
    exact .failed hblame fun stack =>
      (hgo stack).trans (readRest_unclosed (hon stack) (hsettle stack) hscan _)

theorem one_readString (hs : s.Stands) (hrest : s.rest = '"' :: cs)
    (hblame : s.next.Blamable s.source) : One s ((readString s.next).run.run s) := by
  unfold readString
  rw [run_blame, run_bind_ok (run_advance (s := { s with cursor := s.next }) hrest)]
  exact one_quoted ['"'] (.string s.next)
    (fun body => .string (String.ofList (Text.unescape body))) hs hrest hblame
    (fun _ _ _ _ _ => Reader.State.take_string) (fun _ _ _ => rfl) (fun _ _ _ _ => rfl)
    fun stack => goesOn_cons hrest rfl

open Reader.State in
theorem one_readRegex (hs : s.Stands) (hrest : s.rest = '#' :: '"' :: cs)
    (hblame : s.next.Blamable s.source) :
    One s ((readRegex s.next).run.run
      (State.past { s with cursor := s.next } ['#'] ('"' :: cs))) := by
  unfold readRegex
  rw [run_bind_ok (run_advance rfl), State.past_past]
  exact one_quoted ['#', '"'] (.regex s.next) (fun body => .regex (String.ofList body)) hs hrest
    hblame
    (fun _ _ _ _ _ => take_regex) (fun _ _ _ => rfl) (fun _ _ _ _ => rfl)
    fun stack => (goesOn_cons hrest rfl).trans (readRest_cons _ _ _)

open Reader.State in
theorem one_readChar (hs : s.Stands) (hrest : s.rest = '\\' :: cs)
    (hblame : s.next.Blamable s.source) : One s ((readChar s.next).run.run s) := by
  have hgo (stack : Stack) : s.goesOn stack =
      readRest ⟨s.next.after '\\', .char s.next, stack⟩ cs := goesOn_cons hrest rfl
  unfold readChar
  rw [run_blame, run_bind_ok (run_advance (s := { s with cursor := s.next }) hrest)]
  cases cs with
  | nil =>
    rw [run_bind_ok (run_advance_nil rfl)]
    exact .failed hblame hgo
  | cons c cs =>
    obtain ⟨seen, hsource, hnext⟩ := hs
    rw [run_bind_ok (run_advance rfl), State.past_past]
    dsimp only
    rw [run_get, run_skipWhile, State.past_past]
    generalize hcontinues : (fun d => Text.isAlphanumeric c && Text.isAlphanumeric d) = continues
    have hlist : (State.past { s with cursor := s.next } (['\\'] ++ [c]) cs).rest = cs := rfl
    rw [hlist]
    generalize hu : State.past _ _ _ = u
    have hspan : s.rest = (['\\'] ++ c :: cs.takeWhile continues) ++ cs.dropWhile continues := by
      simp [hrest]
    have hu : u = State.past { s with cursor := s.next } (['\\'] ++ c :: cs.takeWhile continues)
        (cs.dropWhile continues) := hu.symm
    have hcut : u.source = (seen ++ ['\\']) ++ (c :: cs.takeWhile continues) ++
        cs.dropWhile continues := by
      rw [hu, List.append_assoc seen, List.append_assoc seen]
      exact hsource.trans (congrArg (seen ++ ·) hspan)
    have hstart : s.next.offset + 1 = (Position.behind (seen ++ ['\\'])).offset := by
      rw [Position.offset_behind_append, hnext]
      rfl
    rw [hstart, ← Position.offset_behind_append, run_bind_ok (run_slice hcut), hu]
    refine one_give hspan (by simp) hblame fun stack => (hgo stack).trans ?_
    rw [List.foldl_append]
    subst hcontinues
    by_cases hc : Text.isAlphanumeric c
    · have hname : (fun d => Text.isAlphanumeric c && Text.isAlphanumeric d) =
          Text.isAlphanumeric := by simp [hc]
      have htake : take ⟨s.next.after '\\', .char s.next, stack⟩ c =
          .ok ⟨s.next.after '\\', .charName s.next [c], stack⟩ := if_pos hc
      rw [hname, readRest_cons, htake]
      exact readRest_collected (fun _ _ _ => rfl) (fun _ _ => rfl) _ [c] cs
    · have hnone : cs.takeWhile (fun d => Text.isAlphanumeric c && Text.isAlphanumeric d) = [] ∧
          cs.dropWhile (fun d => Text.isAlphanumeric c && Text.isAlphanumeric d) = cs := by
        cases cs <;> simp [hc]
      rw [hnone.1, hnone.2]
      have htake : take ⟨s.next.after '\\', .char s.next, stack⟩ c =
          complete ⟨s.next.after '\\', .char s.next, stack⟩ s.next (Token.char [c]) := if_neg hc
      exact readRest_complete htake cs

end LispFront.Descent
