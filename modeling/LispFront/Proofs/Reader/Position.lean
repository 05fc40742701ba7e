import Mathlib.Data.List.Induction
import LispFront.Reader.Machine

/-!
# Where the reader stands

The position behind a text counts its bytes, the lines that it has ended and the bytes of the line
that it has begun. What the reader begins starts there.
-/

namespace LispFront

/-- In the line of that number `c` stands at the byte of that number, both counted from one. -/
def StandsAt (source : List Char) (line column : Nat) (c : Char) : Prop :=
  ∃ above before after, source = above ++ before ++ c :: after ∧
    (above = [] ∨ above.getLast? = some '\n') ∧ '\n' ∉ before ∧
    above.count '\n' + 1 = line ∧ (String.ofList before).utf8ByteSize + 1 = column

theorem StandsAt.le {source : List Char} {line column : Nat} {c : Char}
    (h : StandsAt source line column c) :
    line ≤ (String.ofList source).utf8ByteSize ∧ column ≤ (String.ofList source).utf8ByteSize := by
  obtain ⟨above, before, after, rfl, -, -, rfl, rfl⟩ := h
  have hcount : above.count '\n' ≤ (String.ofList above).utf8ByteSize := by
    induction above with
    | nil => exact Nat.zero_le _
    | cons d above ih =>
      have hsize := Char.utf8Size_pos d
      rw [List.count_cons, String.ofList_cons, String.utf8ByteSize_append,
        String.utf8ByteSize_singleton]
      split <;> omega
  have hsize := Char.utf8Size_pos c
  rw [String.ofList_append, String.ofList_append, String.utf8ByteSize_append,
    String.utf8ByteSize_append, String.ofList_cons, String.utf8ByteSize_append,
    String.utf8ByteSize_singleton]
  omega

namespace Position

theorem offset_after (p : Position) (c : Char) : (p.after c).offset = p.offset + c.utf8Size := by
  unfold after
  split <;> rfl

def behind (cs : List Char) : Position := cs.foldl after start

theorem behind_concat (cs : List Char) (c : Char) : behind (cs ++ [c]) = (behind cs).after c :=
  List.foldl_append

theorem foldl_after_behind (xs ys : List Char) :
    ys.foldl after (behind xs) = behind (xs ++ ys) :=
  List.foldl_append.symm

theorem utf8ByteSize_concat (cs : List Char) (c : Char) :
    (String.ofList (cs ++ [c])).utf8ByteSize = (String.ofList cs).utf8ByteSize + c.utf8Size := by
  rw [String.ofList_append, String.utf8ByteSize_append, ← String.singleton_eq_ofList,
    String.utf8ByteSize_singleton]

theorem offset_behind (cs : List Char) : (behind cs).offset = (String.ofList cs).utf8ByteSize := by
  induction cs using List.reverseRecOn with
  | nil => rfl
  | append_singleton cs c ih => rw [behind_concat, offset_after, ih, utf8ByteSize_concat]

theorem offset_behind_append (xs ys : List Char) :
    (behind (xs ++ ys)).offset = (behind xs).offset + (String.ofList ys).utf8ByteSize := by
  rw [offset_behind, offset_behind, String.ofList_append, String.utf8ByteSize_append]

theorem line_behind (cs : List Char) : ∃ above before, cs = above ++ before ∧
    (above = [] ∨ above.getLast? = some '\n') ∧ '\n' ∉ before ∧
    (behind cs).line = above.count '\n' + 1 ∧
    (behind cs).column = (String.ofList before).utf8ByteSize + 1 := by
  induction cs using List.reverseRecOn with
  | nil => exact ⟨[], [], rfl, .inl rfl, List.not_mem_nil, rfl, rfl⟩
  | append_singleton cs c ih =>
    obtain ⟨above, before, rfl, habove, hbefore, hline, hcolumn⟩ := ih
    rw [behind_concat]
    unfold after
    by_cases hc : c = '\n'
    · subst hc
      have hcount : (above ++ before).count '\n' = above.count '\n' := by
        rw [List.count_append, List.count_eq_zero_of_not_mem hbefore, Nat.add_zero]
      refine ⟨above ++ before ++ ['\n'], [], by simp, .inr (by simp), List.not_mem_nil, ?_, rfl⟩
      rw [if_pos rfl, List.count_append, hcount, hline]
      rfl
    · refine ⟨above, before ++ [c], by simp, habove, by simp [hbefore, Ne.symm hc], ?_, ?_⟩
      · rw [if_neg hc, hline]
      · rw [if_neg hc, utf8ByteSize_concat, hcolumn]
        exact Nat.add_right_comm _ _ _

def Before (p q : Position) : Prop := p.line < q.line ∨ p.line = q.line ∧ p.column < q.column

theorem before_behind_append (cs : List Char) {more : List Char} (h : more ≠ []) :
    (behind cs).Before (behind (cs ++ more)) := by
  have hafter (p : Position) (c : Char) : p.Before (p.after c) := by
    have hsize := Char.utf8Size_pos c
    unfold after
    split
    · exact .inl (Nat.lt_succ_self _)
    · exact .inr ⟨rfl, Nat.lt_add_of_pos_right hsize⟩
  induction more using List.reverseRecOn with
  | nil => exact absurd rfl h
  | append_singleton more c ih =>
    rw [← List.append_assoc, behind_concat]
    by_cases hmore : more = []
    · rw [hmore, List.append_nil]
      exact hafter _ c
    · have hlast := hafter (behind (cs ++ more)) c
      have hfirst := ih hmore
      unfold Before at hlast hfirst ⊢
      omega

def Holds (p : Position) (source : List Char) (c : Char) : Prop :=
  ∃ before after, source = before ++ c :: after ∧ p = behind before

theorem Holds.standsAt {p : Position} {source : List Char} {c : Char} (h : p.Holds source c) :
    StandsAt source p.line p.column c := by
  obtain ⟨cs, after, rfl, rfl⟩ := h
  obtain ⟨above, before, rfl, habove, hbefore, hline, hcolumn⟩ := line_behind cs
  exact ⟨above, before, after, rfl, habove, hbefore, hline.symm, hcolumn.symm⟩

theorem behind_eq_of_isPrefix {before before' : List Char} (h : before <+: before')
    (hline : (behind before).line = (behind before').line)
    (hcolumn : (behind before).column = (behind before').column) :
    behind before = behind before' := by
  obtain ⟨more, rfl⟩ := h
  by_cases hmore : more = []
  · rw [hmore, List.append_nil]
  · have hbefore := before_behind_append before hmore
    unfold Before at hbefore
    omega

theorem Holds.eq {p q : Position} {source : List Char} {c d : Char} (hp : p.Holds source c)
    (hq : q.Holds source d) (hline : p.line = q.line) (hcolumn : p.column = q.column) : p = q := by
  obtain ⟨before, after, rfl, rfl⟩ := hp
  obtain ⟨before', after', hsource, rfl⟩ := hq
  have hprefix : before <+: before ++ c :: after := List.prefix_append _ _
  have hprefix' : before' <+: before ++ c :: after := hsource ▸ List.prefix_append _ _
  rcases List.prefix_or_prefix_of_prefix hprefix hprefix' with h | h
  · exact behind_eq_of_isPrefix h hline hcolumn
  · exact (behind_eq_of_isPrefix h hline.symm hcolumn.symm).symm

end Position

namespace Reader.State

inductive Begun (s : State) : Char → State → Prop
  | blank {c : Char} : Text.isBlank c → Begun s c { s with mode := .between }
  | comment : Begun s ';' { s with mode := .comment }
  | bracket {c : Char} {b : Bracket} : (c, b) ∈ [('(', .round), ('[', .square), ('{', .curly)] →
      Begun s c (s.openFrame (.collecting b s.next []))
  | mark {c : Char} {mark : Mark} :
      (c, mark) ∈ [('@', .deref), ('\'', .quote), ('^', .metadata)] →
      Begun s c (s.openFrame (.awaiting mark s.next))
  | closing {c : Char} {t : State} : c ∈ [')', ']', '}'] → s.close c = .ok t → Begun s c t
  | dispatch : Begun s '#' { s with mode := .dispatch s.next }
  | char : Begun s '\\' { s with mode := .char s.next }
  | string : Begun s '"' { s with mode := .string s.next [] false }
  | token {c : Char} : ¬Text.isBlank c → c ≠ ';' → Text.startsToken c →
      Begun s c { s with mode := .token s.next [c] }

theorem begun {s t : State} {c : Char} (h : s.begin c = .ok t) : s.Begun c t := by
  unfold begin at h
  by_cases hblank : Text.isBlank c
  · rw [if_pos hblank] at h
    cases h
    exact .blank hblank
  · rw [if_neg hblank] at h
    split at h
    · cases h
      exact .comment
    · cases h
      exact .bracket (by simp)
    · cases h
      exact .bracket (by simp)
    · cases h
      exact .bracket (by simp)
    · exact .closing (by simp) h
    · exact .closing (by simp) h
    · exact .closing (by simp) h
    · cases h
      exact .dispatch
    · cases h
      exact .mark (by simp)
    · cases h
      exact .mark (by simp)
    · cases h
      exact .mark (by simp)
    · cases h
      exact .char
    · cases h
      exact .string
    · split at h
      · rename_i hstart
        cases h
        exact .token hblank (by assumption) hstart
      · cases h

end Reader.State

end LispFront
