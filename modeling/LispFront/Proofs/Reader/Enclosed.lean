import LispFront.Proofs.Reader.Prefixed

/-!
# Failures within brackets

What is wrong with a token or a form as a whole is wrong wherever the text stands: within brackets
the fault is the same, as many bytes further on as the brackets take, unless one of the brackets is
that of a set, which takes the blame. A bracket that is not closed, or not as it should be, is
reported where it stands, whatever it holds; only that a map lacks a value is found before.
-/

namespace LispFront

/-- Holds of the faults of a token or a form that was read to its end, not of what is open, missing
or left over. -/
def ReadFault.isOfWhole : ReadFault → Bool
  | .badNumber _ | .missingNamespace | .invalidNamespace | .invalidIdentifier | .unknownCharName _
  | .unknownDispatch _ | .invalidMetadata _ | .invalidMetadataTarget _ | .varNeedsSymbol _ => true
  | _ => false

theorem ReadFault.isOfWhole_bare (fault : ReadFault) : fault.bare.isOfWhole = fault.isOfWhole := by
  cases fault <;> rfl

namespace Bracket

def opening : Bracket → String
  | .round => "("
  | .square => "["
  | .curly => "\x7b"
  | .hashCurly => "#\x7b"

def around (b : Bracket) (s : String) : String :=
  b.opening ++ s ++ "\n" ++ String.singleton b.closing

def nest (bs : List Bracket) (s : String) : String := bs.foldr around s

def openingSize (bs : List Bracket) : Nat := (bs.map (·.opening.utf8ByteSize)).sum

theorem openingSize_cons (b : Bracket) (bs : List Bracket) :
    openingSize (b :: bs) = b.opening.utf8ByteSize + openingSize bs :=
  List.sum_cons

theorem opening_size_pos (b : Bracket) : 0 < b.opening.utf8ByteSize := by
  cases b <;> decide

theorem toList_around (b : Bracket) (s : String) :
    (b.around s).toList = b.opening.toList ++ (s.toList ++ ['\n']) ++ [b.closing] := by
  simp [around]

end Bracket

theorem Stack.not_isOfWhole_of_close_none {s : Stack} {e : ReadError}
    (h : s.close none = .error e) : ¬e.fault.isOfWhole := by
  obtain ⟨frames, forms⟩ := s
  cases frames with
  | nil => cases h
  | cons fr frames =>
    cases fr with
    | collecting b start elems =>
      unfold close at h
      dsimp only at h
      split at h
      · rename_i fault hfault
        cases h
        cases b with
        | curly =>
          unfold Bracket.gather at hfault
          dsimp only at hfault
          split at hfault
          · cases hfault
          · cases hfault
            exact Bool.false_ne_true
        | round | square | hashCurly => cases hfault
      · rw [if_neg (by simp)] at h
        cases h
        exact Bool.false_ne_true
    | awaiting | decorating =>
      cases h
      exact Bool.false_ne_true

namespace Reader.State

variable {s : State} {e : ReadError}

theorem take_lineFeed_error (h : s.settle = .error e) (hfault : e.fault.isOfWhole) :
    s.take '\n' = .error e := by
  obtain ⟨next, mode, stack⟩ := s
  cases mode with
  | between | comment => cases h
  | token start seen | charName start seen =>
    have h : complete _ start _ = .error e := h
    unfold take
    simp only [h]
    rfl
  | string | regex | dispatch | char =>
    cases h
    exact absurd hfault Bool.false_ne_true

theorem run_line_error {source : String} (h : read source = .error e)
    (hfault : e.fault.isOfWhole) : run .initial (source.toList ++ ['\n']) = .error e := by
  rw [run_append]
  rcases bind_eq_error.mp h with hrun | ⟨s, hrun, hfinish⟩
  · rw [hrun]
    rfl
  · rcases bind_eq_error.mp hfinish with hsettle | ⟨t, -, hclose⟩
    · rw [hrun]
      change (s.step '\n').bind _ = .error e
      rw [step, take_lineFeed_error hsettle hfault]
      rfl
    · exact absurd hfault (Stack.not_isOfWhole_of_close_none (map_eq_error.mp hclose))

theorem run_opening (b : Bracket) : run .initial b.opening.toList =
    .ok ⟨.behind b.opening.toList, .between, ⟨[.collecting b .start []], []⟩⟩ := by
  cases b <;> rfl

end Reader.State

open Reader State

theorem read_around {s : String} {e : ReadError} (h : read s = .error e)
    (hfault : e.fault.isOfWhole) (b : Bracket) :
    ∃ e', read (b.around s) = .error e' ∧ e'.fault.bare = e.fault.bare ∧
      e'.offset = if b = .hashCurly then 0 else b.opening.utf8ByteSize + e.offset := by
  have hbase : Stack.Receptive ⟨[.collecting b .start []], []⟩ := .inr ⟨b, .start, [], [], rfl⟩
  have hrun := follows_run hbase (above_initial _ (.behind b.opening.toList)) (s.toList ++ ['\n'])
  rw [run_line_error h hfault] at hrun
  generalize ht : run ⟨_, .between, ⟨[.collecting b .start []], []⟩⟩ _ = r at hrun
  cases hrun with
  | @error _ e' hbare hoffset =>
    refine ⟨e', ?_, hbare, ?_⟩
    · rw [read, Bracket.toList_around, run_append, run_append, run_opening]
      simp only [Except.bind, ht]
    · rw [hoffset, Position.offset_behind, String.ofList_toList]
      cases b <;> rfl
  | below => exact absurd hfault Bool.false_ne_true

/-- Within any brackets the fault is the same. It is found behind all the brackets, at its place in
the text, exactly if none of them is that of a set; the outermost one of a set takes the blame. -/
theorem fault_within_brackets {s : String} {e : ReadError} (h : read s = .error e)
    (hfault : e.fault.isOfWhole) (bs : List Bracket) :
    ∃ e', read (Bracket.nest bs s) = .error e' ∧ e'.fault.bare = e.fault.bare ∧
      (e'.offset = if .hashCurly ∈ bs then Bracket.openingSize (bs.takeWhile (· != .hashCurly))
        else Bracket.openingSize bs + e.offset) ∧
      (e'.offset = Bracket.openingSize bs + e.offset ↔ .hashCurly ∉ bs) := by
  induction bs with
  | nil => exact ⟨e, h, rfl, by simp [Bracket.openingSize], by simp [Bracket.openingSize]⟩
  | cons b bs ih =>
    obtain ⟨e₁, hread, hbare, hoffset, hplace⟩ := ih
    have hfault₁ : e₁.fault.isOfWhole := by
      rw [← ReadFault.isOfWhole_bare, hbare, ReadFault.isOfWhole_bare]
      exact hfault
    obtain ⟨e₂, haround, hbare₂, hoffset₂⟩ := read_around hread hfault₁ b
    refine ⟨e₂, haround, hbare₂.trans hbare, ?_⟩
    have hsize := b.opening_size_pos
    rw [Bracket.openingSize_cons]
    by_cases hb : b = .hashCurly
    · rw [if_pos hb] at hoffset₂
      subst hb
      refine ⟨?_, ?_⟩
      · simpa [Bracket.openingSize] using hoffset₂
      · simp only [List.mem_cons_self, not_true_eq_false, iff_false]
        omega
    · rw [if_neg hb] at hoffset₂
      have hmem : .hashCurly ∈ b :: bs ↔ .hashCurly ∈ bs := by simp [Ne.symm hb]
      simp only [hmem, List.takeWhile_cons, bne_iff_ne, hb, ne_eq, not_false_eq_true, if_true,
        Bracket.openingSize_cons]
      refine ⟨?_, ?_⟩
      · rw [hoffset₂, hoffset]
        split <;> omega
      · rw [← hplace, hoffset₂]
        omega

theorem fault_within_brackets_of_number :
    read "a 1b" = .error ⟨.badNumber .invalidDigit, 2⟩ ∧
      (∃ e, read "([a 1b\n]\n)" = .error e ∧ e.fault.bare = .badNumber .invalidDigit ∧
        e.offset = 4) ∧
      ∃ e, read "(#\x7b[a 1b\n]\n\x7d\n)" = .error e ∧ e.fault.bare = .badNumber .invalidDigit ∧
        e.offset = 1 := by
  have h : read "a 1b" = .error ⟨.badNumber .invalidDigit, 2⟩ := rfl
  obtain ⟨e, hread, hbare, hoffset, -⟩ := fault_within_brackets h rfl [.round, .square]
  obtain ⟨e', hread', hbare', hoffset', -⟩ :=
    fault_within_brackets h rfl [.round, .hashCurly, .square]
  exact ⟨h, ⟨e, hread, hbare, hoffset⟩, e', hread', hbare', hoffset'⟩

/-- In a set a bad token is not reported where it stands. -/
theorem fault_within_set_misplaced :
    read "1b" = .error ⟨.badNumber .invalidDigit, 0⟩ ∧
      read "#\x7b1b\n\x7d" = .error ⟨.badNumber .invalidDigit, 0⟩ ∧
      ∀ fault, read "#\x7b1b\n\x7d" ≠ .error ⟨fault, "#\x7b".utf8ByteSize + 0⟩ :=
  ⟨rfl, rfl, nofun⟩

theorem Bracket.gather_cases (b : Bracket) (start : Position) (es : List Form) :
    if b = .curly ∧ es.length % 2 = 1 then b.gather start es = .error .unpairedMap
    else ∃ f, b.gather start es = .ok f := by
  cases b with
  | curly =>
    have hpairs := pairs_isSome_iff es
    unfold gather
    cases h : pairs es with
    | none =>
      rw [h] at hpairs
      rw [if_pos ⟨rfl, by simpa using hpairs⟩]
    | some entries =>
      rw [h] at hpairs
      rw [if_neg (by simpa using hpairs)]
      exact ⟨_, rfl⟩
  | round | square | hashCurly =>
    rw [if_neg (by simp)]
    exact ⟨_, rfl⟩

theorem Stack.close_error (b : Bracket) (start : Position) (es : List Form) {closing : Option Char}
    (hclosing : closing ≠ some b.closing) :
    close ⟨[.collecting b start es.reverse], []⟩ closing =
      .error ⟨if b = .curly ∧ es.length % 2 = 1 then .unpairedMap else .unbalanced b.closing,
        start.offset⟩ := by
  have hgather := b.gather_cases start es
  unfold close
  simp only [List.reverse_reverse]
  split at hgather
  · rename_i hodd
    rw [hgather, if_pos hodd]
    rfl
  · rename_i hpaired
    obtain ⟨f, hf⟩ := hgather
    simp only [hf, if_neg hclosing, if_neg hpaired]
    rfl

/-- Whatever a text holds that can be read, a bracket in front of it that is not closed behind it,
or by a bracket of another kind, is reported as such; but a map that lacks a value is reported as
that. -/
theorem read_unclosed {a : String} {fa : List Form} (h : read a = .ok fa) (b : Bracket)
    {t : String} (ht : ∀ c ∈ t.toList.head?, c ∈ [')', ']', '}'] ∧ c ≠ b.closing) :
    read (b.opening ++ a ++ "\n" ++ t) =
      .error ⟨if b = .curly ∧ fa.length % 2 = 1 then .unpairedMap else .unbalanced b.closing,
        0⟩ := by
  obtain ⟨p, gs, hgs, hrun⟩ := run_within h b .start (.behind b.opening.toList)
  have hlength : gs.length = fa.length := by simpa using congrArg List.length hgs
  have hread : read (b.opening ++ a ++ "\n" ++ t) =
      readRest ⟨p, .between, ⟨[.collecting b .start gs.reverse], []⟩⟩ t.toList := by
    have htext : (b.opening ++ a ++ "\n" ++ t).toList =
        b.opening.toList ++ (a.toList ++ ['\n']) ++ t.toList := by simp
    rw [read, htext, run_append, run_append, run_opening]
    simp only [Except.bind, hrun]
    rfl
  rw [hread, ← hlength]
  cases hcs : t.toList with
  | nil =>
    have hclose := Stack.close_error b .start gs (Option.some_ne_none b.closing).symm
    exact congrArg (Except.map _) hclose
  | cons c cs =>
    rw [hcs] at ht
    obtain ⟨hc, hne⟩ := ht c rfl
    have hbegin (s : State) : s.begin c = s.close c := by
      simp only [List.mem_cons, List.not_mem_nil, or_false] at hc
      rcases hc with rfl | rfl | rfl <;> rfl
    rw [readRest_close (List.cons_ne_nil _ _) hbegin,
      Stack.close_error b .start gs (by simpa using hne)]
    rfl

theorem read_unclosed_set :
    ∃ fa, read "(a) 'b" = .ok fa ∧
      read "#\x7b(a) 'b\n]" = .error ⟨.unbalanced '}', 0⟩ ∧
      read "\x7b(a) 'b\n" = .error ⟨.unbalanced '}', 0⟩ := by
  obtain ⟨fa, h, hpaired⟩ : ∃ fa, read "(a) 'b" = .ok fa ∧ ¬fa.length % 2 = 1 :=
    ⟨_, rfl, by decide⟩
  have hset := read_unclosed h .hashCurly (t := "]") (by simp [Bracket.closing])
  have hmap := read_unclosed h .curly (t := "") (by simp)
  rw [if_neg (by simp)] at hset
  rw [if_neg (by simp [hpaired])] at hmap
  exact ⟨fa, h, hset, hmap⟩

/-- The map is not closed, and what is reported is its odd number of elements. -/
theorem read_unclosed_map_of_one :
    read ":a" = .ok [.key "a"] ∧ read "\x7b:a\n" = .error ⟨.unpairedMap, 0⟩ ∧
      ∀ n, read "\x7b:a\n" ≠ .error ⟨.unbalanced '}', n⟩ :=
  ⟨rfl, rfl, nofun⟩

end LispFront
