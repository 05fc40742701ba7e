import LispFront.Proofs.Form.Listing
import LispFront.Proofs.Reader.RoundTrip
import LispFront.Proofs.Reader.Shift

/-!
# Reading a text behind another one

What a text is read as does not depend on what stands before it, nor on a bracket around it: a line
feed ends whatever may end there, and what then follows is read above the forms that are finished.
-/

namespace LispFront

theorem Stack.close_none {s t : Stack} (h : s.close none = .ok t) : s.frames = [] ∧ t = s := by
  unfold close at h
  split at h
  · rename_i hframes
    cases h
    exact ⟨hframes, rfl⟩
  · split at h
    · cases h
    · rw [if_neg (by simp)] at h
      cases h
  · cases h
  · cases h

namespace Reader.State

variable {s t : State}

theorem run_offset {cs : List Char} (h : s.run cs = .ok t) :
    t.next.offset = s.next.offset + (String.ofList cs).utf8ByteSize := by
  induction cs generalizing s with
  | nil =>
    cases h
    simp
  | cons c cs ih =>
    obtain ⟨u, hu, ht⟩ := bind_eq_ok.mp h
    obtain ⟨v, -, rfl⟩ := map_eq_ok.mp hu
    rw [ih ht, Position.offset_after, String.ofList_cons, String.utf8ByteSize_append,
      String.utf8ByteSize_singleton, Nat.add_assoc]

theorem take_lineFeed (h : s.settle = .ok t) : s.take '\n' = .ok { t with mode := .between } := by
  obtain ⟨next, mode, stack⟩ := s
  cases mode with
  | between | comment =>
    cases h
    rfl
  | token start seen | charName start seen =>
    have h : complete _ start _ = .ok t := h
    unfold take
    simp only [h]
    rfl
  | string | regex | dispatch | char => cases h

theorem finish_eq_ok {fs : List Form} (h : s.finish = .ok fs) :
    ∃ t, s.settle = .ok t ∧ t.stack = ⟨[], fs.reverse⟩ := by
  obtain ⟨t, ht, h⟩ := bind_eq_ok.mp h
  obtain ⟨u, hu, rfl⟩ := map_eq_ok.mp h
  obtain ⟨hframes, rfl⟩ := Stack.close_none hu
  refine ⟨t, ht, ?_⟩
  rw [List.reverse_reverse, ← hframes]

variable {d : Nat} {base : Stack}

theorem above_initial (base : Stack) (p : Position) :
    Above p.offset base .initial ⟨p, .between, base⟩ :=
  ⟨rfl, .between, .intro .nil rfl⟩

theorem follows_finish (hbase : base.frames = []) (h : Above d base s t) :
    Follows d base (fun fs gs => ∃ gs', gs = base.forms.reverse ++ gs' ∧
      gs'.map Form.bare = fs.map Form.bare) s.finish t.finish :=
  follows_bind (follows_settle (.inl hbase) h) fun _ _ hu =>
    follows_map (Stack.follows_close_none hbase hu.stack) fun _ _ hv => hv.finished hbase

theorem run_line {source : String} {fs : List Form} (h : read source = .ok fs) :
    ∃ p, run .initial (source.toList ++ ['\n']) = .ok ⟨p, .between, ⟨[], fs.reverse⟩⟩ ∧
      p.offset = source.utf8ByteSize + 1 := by
  obtain ⟨s, hs, hfinish⟩ := bind_eq_ok.mp h
  obtain ⟨t, ht, hstack⟩ := finish_eq_ok hfinish
  have hline := run_cons (take_lineFeed ht) []
  rw [hstack] at hline
  have hrun : run .initial (source.toList ++ ['\n']) =
      .ok ⟨s.next.after '\n', .between, ⟨[], fs.reverse⟩⟩ := by
    rw [run_append, hs]
    exact hline
  refine ⟨_, hrun, ?_⟩
  have hoffset := run_offset hrun
  rw [String.ofList_append, String.utf8ByteSize_append, String.ofList_toList] at hoffset
  exact hoffset.trans (Nat.zero_add _)

/-- A text that stands further on is read as on its own, behind the forms that are finished. -/
theorem follows_readRest (p : Position) (forms : List Form) (cs : List Char) :
    Follows p.offset ⟨[], forms⟩
      (fun fs gs => ∃ gs', gs = forms.reverse ++ gs' ∧ gs'.map Form.bare = fs.map Form.bare)
      (readRest .initial cs) (readRest ⟨p, .between, ⟨[], forms⟩⟩ cs) :=
  follows_bind (follows_run (.inl rfl) (above_initial _ p) cs) fun _ _ h => follows_finish rfl h

theorem follows_read {a : String} {fa : List Form} (h : read a = .ok fa) (b : String) :
    Follows (a.utf8ByteSize + 1) ⟨[], fa.reverse⟩
      (fun fb gs => ∃ gs', gs = fa ++ gs' ∧ gs'.map Form.bare = fb.map Form.bare)
      (read b) (read (a ++ "\n" ++ b)) := by
  obtain ⟨p, hline, hp⟩ := run_line h
  have hread : read (a ++ "\n" ++ b) = readRest ⟨p, .between, ⟨[], fa.reverse⟩⟩ b.toList := by
    have htext : (a ++ "\n" ++ b).toList = (a.toList ++ ['\n']) ++ b.toList := by simp
    rw [read, htext, run_append, hline]
    rfl
  have hfollows := follows_readRest p fa.reverse b.toList
  rw [List.reverse_reverse] at hfollows
  rwa [hread, ← hp]

theorem finish_closing (b : Bracket) (p start : Position) (gs : List Form) :
    (run ⟨p, .between, ⟨[.collecting b start gs.reverse], []⟩⟩ [b.closing]).bind (·.finish) =
      match b.gather start gs with
      | .ok g => .ok [g]
      | .error fault => .error ⟨fault, start.offset⟩ := by
  have htake : take ⟨p, .between, ⟨[.collecting b start gs.reverse], []⟩⟩ b.closing =
      match b.gather start gs with
      | .ok g => .ok ⟨p, .between, ⟨[], [g]⟩⟩
      | .error fault => .error ⟨fault, start.offset⟩ := by
    change begin _ b.closing = _
    rw [begin_closing]
    simp only [close, List.isEmpty_cons, Stack.close, List.reverse_reverse]
    cases b.gather start gs with
    | ok g => simp [Stack.deliver, Except.map]
    | error fault => rfl
  cases hg : b.gather start gs with
  | ok g =>
    rw [hg] at htake
    rw [run_cons htake]
    rfl
  | error fault =>
    rw [hg] at htake
    change ((step _ b.closing).bind _).bind _ = _
    rw [step, htake]
    rfl

theorem run_within {a : String} {fa : List Form} (h : read a = .ok fa) (b : Bracket)
    (start q : Position) :
    ∃ (p : Position) (gs : List Form), gs.map Form.bare = fa.map Form.bare ∧
      run ⟨q, .between, ⟨[.collecting b start []], []⟩⟩ (a.toList ++ ['\n']) =
        .ok ⟨p, .between, ⟨[.collecting b start gs.reverse], []⟩⟩ := by
  obtain ⟨p, hline, -⟩ := run_line h
  have hbase : Stack.Receptive ⟨[.collecting b start []], []⟩ := .inr ⟨b, start, [], [], rfl⟩
  have hrun := follows_run hbase (above_initial _ q) (a.toList ++ ['\n'])
  rw [hline] at hrun
  generalize ht : run ⟨q, .between, ⟨[.collecting b start []], []⟩⟩ (a.toList ++ ['\n']) = r at hrun
  cases hrun with
  | @ok _ t hst =>
    obtain ⟨next, mode, stack⟩ := t
    obtain ⟨-, hmode, hstack⟩ := hst
    cases hmode
    cases hstack with
    | @intro _ _ _ gs hframes hforms =>
      cases hframes
      refine ⟨next, gs, by simpa using hforms, ?_⟩
      rw [Stack.giveAll_collecting, List.append_nil]
      rfl

theorem read_within {a : String} {fa : List Form} (h : read a = .ok fa) (b : Bracket)
    (opening source : String) {q : Position}
    (hopen : run .initial opening.toList = .ok ⟨q, .between, ⟨[.collecting b .start []], []⟩⟩)
    (hsource : source.toList = opening.toList ++ (a.toList ++ ['\n']) ++ [b.closing]) :
    ∃ gs : List Form, gs.map Form.bare = fa.map Form.bare ∧
      read source = match b.gather .start gs with
        | .ok g => .ok [g]
        | .error fault => .error ⟨fault, 0⟩ := by
  obtain ⟨p, gs, hgs, hrun⟩ := run_within h b .start q
  refine ⟨gs, hgs, ?_⟩
  rw [read, hsource, run_append, run_append, hopen]
  simp only [Except.bind, hrun]
  exact finish_closing b p .start gs

end Reader.State

theorem pairs_isSome_iff (es : List Form) : (pairs es).isSome ↔ es.length % 2 = 0 := by
  fun_induction pairs es with
  | case1 => simp
  | case2 => simp
  | case3 a b l ih =>
    rw [Option.isSome_map, ih, List.length_cons, List.length_cons]
    omega

theorem flat_of_pairs {es : List Form} {entries : List (Form × Form)}
    (h : pairs es = some entries) : Reader.State.flat entries = es := by
  fun_induction pairs es generalizing entries with
  | case1 =>
    cases h
    rfl
  | case2 => cases h
  | case3 a b l ih =>
    obtain ⟨rest, hrest, rfl⟩ := Option.map_eq_some_iff.mp h
    exact congrArg (a :: b :: ·) (ih hrest)

open Reader State in
/-- What a text is read as depends neither on a text before it nor on a bracket around it. -/
theorem read_compositional {a : String} {fa : List Form} (h : read a = .ok fa) :
    (∀ b fb, read b = .ok fb →
      ∃ gs, read (a ++ "\n" ++ b) = .ok (fa ++ gs) ∧ (gs == fb) = true) ∧
    (∀ b e, read b = .error e →
      ∃ e', read (a ++ "\n" ++ b) = .error e' ∧ e'.fault.bare = e.fault.bare ∧
        e'.offset = a.utf8ByteSize + 1 + e.offset) ∧
    (∃ gs, (gs == fa) = true ∧
      read ("(" ++ a ++ "\n)") = .ok [.list gs Position.start.metadata]) ∧
    (∃ gs, (gs == fa) = true ∧ read ("[" ++ a ++ "\n]") = .ok [.vector gs []]) ∧
    (∃ gs, (gs == fa) = true ∧
      read ("#\x7b" ++ a ++ "\n\x7d") = .ok [.set (FormSet.ofList gs) []] ∧
      ∀ f, Sorted.find? f.cmp (FormSet.ofList gs) = gs.reverse.find? (f == ·)) ∧
    if fa.length % 2 = 0 then
      ∃ es, (flat es == fa) = true ∧
        read ("\x7b" ++ a ++ "\n\x7d") = .ok [.map (FormMap.ofList es) []] ∧
        ∀ k, FormMap.find? (FormMap.ofList es) k = (es.reverse.find? (k == ·.1)).map (·.2)
    else read ("\x7b" ++ a ++ "\n\x7d") = .error ⟨.unpairedMap, 0⟩ := by
  refine ⟨fun b fb hb => ?_, fun b e he => ?_, ?_, ?_, ?_, ?_⟩
  · have hread := follows_read h b
    rw [hb] at hread
    generalize read (a ++ "\n" ++ b) = r at hread
    cases hread with
    | ok hfb =>
      obtain ⟨gs, rfl, hgs⟩ := hfb
      exact ⟨gs, rfl, beq_of_bare hgs⟩
  · have hread := follows_read h b
    rw [he] at hread
    generalize read (a ++ "\n" ++ b) = r at hread
    cases hread with
    | error hfault hoffset => exact ⟨_, rfl, hfault, hoffset⟩
    | below hbase => exact absurd rfl hbase
  · obtain ⟨gs, hgs, hread⟩ := read_within h .round "(" ("(" ++ a ++ "\n)") rfl
      (by simp [Bracket.closing])
    exact ⟨gs, beq_of_bare hgs, hread⟩
  · obtain ⟨gs, hgs, hread⟩ := read_within h .square "[" ("[" ++ a ++ "\n]") rfl
      (by simp [Bracket.closing])
    exact ⟨gs, beq_of_bare hgs, hread⟩
  · obtain ⟨gs, hgs, hread⟩ := read_within h .hashCurly "#\x7b" ("#\x7b" ++ a ++ "\n\x7d")
      rfl (by simp [Bracket.closing])
    exact ⟨gs, beq_of_bare hgs, hread, FormSet.find?_ofList gs⟩
  · obtain ⟨gs, hgs, hread⟩ := read_within h .curly "\x7b" ("\x7b" ++ a ++ "\n\x7d") rfl
      (by simp [Bracket.closing])
    have hlength : gs.length = fa.length := by simpa using congrArg List.length hgs
    have hpairs := pairs_isSome_iff gs
    rw [hlength] at hpairs
    rw [Bracket.gather] at hread
    cases hes : pairs gs with
    | some es =>
      rw [hes] at hpairs hread
      rw [if_pos (hpairs.mp rfl)]
      exact ⟨es, beq_of_bare (flat_of_pairs hes ▸ hgs), hread, FormMap.find?_ofList es⟩
    | none =>
      rw [hes] at hpairs hread
      rw [if_neg (by simp [← hpairs])]
      exact hread

theorem read_compositional_of_comment :
    ∃ fa fb e, read "x ;y" = .ok fa ∧ read "(z) #_z" = .ok fb ∧ read "z \"" = .error e ∧
      (∃ gs, read ("x ;y" ++ "\n" ++ "(z) #_z") = .ok (fa ++ gs) ∧ (gs == fb) = true) ∧
      (∃ e', read ("x ;y" ++ "\n" ++ "z \"") = .error e' ∧ e'.fault.bare = e.fault.bare ∧
        e'.offset = "x ;y".utf8ByteSize + 1 + e.offset) ∧
      (∃ gs, (gs == fa) = true ∧
        read ("(" ++ "x ;y" ++ "\n)") = .ok [.list gs Position.start.metadata]) ∧
      read ("\x7b" ++ "x ;y" ++ "\n\x7d") = .error ⟨.unpairedMap, 0⟩ := by
  obtain ⟨fa, ha, hodd⟩ : ∃ fa, read "x ;y" = .ok fa ∧ ¬fa.length % 2 = 0 :=
    ⟨_, rfl, by decide⟩
  obtain ⟨fb, hb⟩ : ∃ fb, read "(z) #_z" = .ok fb := ⟨_, rfl⟩
  obtain ⟨e, he⟩ : ∃ e, read "z \"" = .error e := ⟨_, rfl⟩
  obtain ⟨hbehind, hfails, hlist, -, -, hmap⟩ := read_compositional ha
  rw [if_neg hodd] at hmap
  exact ⟨fa, fb, e, ha, hb, he, hbehind _ fb hb, hfails _ e he, hlist, hmap⟩

end LispFront
