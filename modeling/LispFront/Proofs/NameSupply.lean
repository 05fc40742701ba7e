import Mathlib.Data.List.Nodup
import LispFront.NameSupply

/-!
# Names that a supply gives out

The supply numbers names one after the other and starts over behind the last number: 2^64 names of
one stem in a row are all different. A number is not set off from its stem, so names of different
stems may be the same; they are where the one stem goes on with the first digits of the other's
number.
-/

namespace LispFront.NameSupply

def after (s : NameSupply) (n : Nat) : NameSupply := ⟨s.count + UInt64.ofNat n⟩

def loopId (s : NameSupply) (i : Nat) : Symbol := (s.after i).peek "loop_"

variable {s t : NameSupply}

theorem after_zero (s : NameSupply) : s.after 0 = s := by
  change (⟨s.count + 0⟩ : NameSupply) = s
  rw [UInt64.add_zero]

theorem after_succ (s : NameSupply) (n : Nat) : s.after (n + 1) = s.advance.after n := by
  change (⟨s.count + UInt64.ofNat (n + 1)⟩ : NameSupply) = ⟨s.count + 1 + UInt64.ofNat n⟩
  rw [UInt64.ofNat_add, UInt64.add_comm (UInt64.ofNat n), UInt64.add_assoc]
  rfl

theorem advance_after (s : NameSupply) (n : Nat) : (s.after n).advance = s.advance.after n := by
  change (⟨s.count + UInt64.ofNat n + 1⟩ : NameSupply) = ⟨s.count + 1 + UInt64.ofNat n⟩
  rw [UInt64.add_assoc, UInt64.add_comm (UInt64.ofNat n), UInt64.add_assoc]

theorem after_add (s : NameSupply) (m n : Nat) : s.after (m + n) = (s.after m).after n := by
  change (⟨s.count + UInt64.ofNat (m + n)⟩ : NameSupply) =
    ⟨s.count + UInt64.ofNat m + UInt64.ofNat n⟩
  rw [UInt64.ofNat_add, UInt64.add_assoc]

theorem loopId_after (s : NameSupply) (m i : Nat) :
    (s.after m).loopId i = s.loopId (m + i) := by
  rw [loopId, loopId, after_add]

theorem start_after (n : Nat) : start.after n = ⟨UInt64.ofNat n⟩ :=
  congrArg NameSupply.mk (UInt64.zero_add _)

theorem after_comm (s t : NameSupply) : s.after t.count.toNat = t.after s.count.toNat := by
  change (⟨s.count + UInt64.ofNat t.count.toNat⟩ : NameSupply) =
    ⟨t.count + UInt64.ofNat s.count.toNat⟩
  rw [UInt64.ofNat_toNat, UInt64.ofNat_toNat, UInt64.add_comm]

theorem after_start_after (s : NameSupply) (n : Nat) :
    (start.after n).after s.count.toNat = s.after n := by
  rw [start_after]
  change (⟨UInt64.ofNat n + UInt64.ofNat s.count.toNat⟩ : NameSupply) = ⟨s.count + UInt64.ofNat n⟩
  rw [UInt64.ofNat_toNat, UInt64.add_comm]

theorem eq_of_toString_eq {m n : Nat} (h : toString m = toString n) : m = n := by
  have hdigits : Nat.toDigits 10 m = Nat.toDigits 10 n := by
    rw [← Nat.toList_repr, ← Nat.toList_repr]
    exact congrArg String.toList h
  have hread := congrArg (Nat.ofDigitChars 10 · 0) hdigits
  rwa [Nat.ofDigitChars_toDigits (by decide) (by decide),
    Nat.ofDigitChars_toDigits (by decide) (by decide)] at hread

theorem eq_of_peek_eq {stem : String} (h : s.peek stem = t.peek stem) : s = t := by
  have htext : stem ++ toString s.count.toNat = stem ++ toString t.count.toNat :=
    congrArg Symbol.name h
  have hcount := eq_of_toString_eq ((String.append_right_inj stem).mp htext)
  obtain ⟨count⟩ := s
  obtain ⟨count'⟩ := t
  exact congrArg NameSupply.mk (UInt64.toNat_inj.mp hcount)

theorem after_inj {i j : Nat} (hi : i < UInt64.size) (hj : j < UInt64.size)
    (h : s.after i = s.after j) : i = j := by
  have hcount : s.count + UInt64.ofNat i = s.count + UInt64.ofNat j := congrArg count h
  have hofNat := congrArg UInt64.toNat (UInt64.add_right_inj s.count |>.mp hcount)
  rwa [UInt64.toNat_ofNat_of_lt' hi, UInt64.toNat_ofNat_of_lt' hj] at hofNat

theorem nodup_loopIds (s : NameSupply) {n : Nat} (hn : n < UInt64.size) :
    ((List.range n).map s.loopId).Nodup := by
  refine List.nodup_range.map_on fun i hi j hj h => ?_
  have hlt {i : Nat} (hi : i ∈ List.range n) : i < UInt64.size :=
    Nat.lt_trans (List.mem_range.mp hi) hn
  exact after_inj (hlt hi) (hlt hj) (eq_of_peek_eq h)

/-- The names that are given out for stems in turn, whoever asks for them. -/
def names (s : NameSupply) : List String → List Symbol
  | [] => []
  | stem :: stems => s.peek stem :: names s.advance stems

theorem length_names (s : NameSupply) (stems : List String) :
    (s.names stems).length = stems.length := by
  induction stems generalizing s with
  | nil => rfl
  | cons stem stems ih => exact congrArg (· + 1) (ih s.advance)

theorem names_getElem? (s : NameSupply) (stems : List String) (i : Nat) :
    (s.names stems)[i]? = stems[i]?.map (s.after i).peek := by
  induction stems generalizing s i with
  | nil => rfl
  | cons stem stems ih =>
    cases i with
    | zero =>
      rw [after_zero]
      rfl
    | succ i =>
      rw [after_succ]
      exact ih s.advance i

theorem peek_start_after {i : Nat} (hi : i < UInt64.size) (stem : String) :
    (start.after i).peek stem = .plain (stem ++ toString i) := by
  rw [start_after, peek, UInt64.toNat_ofNat_of_lt' hi]

theorem toString_ne_append {i j : Nat} (h : i < j) (digits : String) :
    toString i ≠ digits ++ toString j := by
  intro heq
  have hlist : Nat.toDigits 10 i = digits.toList ++ Nat.toDigits 10 j := by
    rw [← Nat.toList_repr, ← Nat.toList_repr, ← String.toList_append]
    exact congrArg String.toList heq
  have hread := congrArg (Nat.ofDigitChars 10 · 0) hlist
  rw [Nat.ofDigitChars_toDigits (by decide) (by decide), Nat.ofDigitChars_append,
    Nat.ofDigitChars_eq_ofDigitChars_zero,
    Nat.ofDigitChars_toDigits (by decide) (by decide)] at hread
  omega

/-- The earlier number is the end of the later one, and the rest of the later one is the end of the
earlier stem. -/
theorem append_toString_eq_iff {i j : Nat} (h : i < j) (p q : String) :
    p ++ toString i = q ++ toString j ↔
      ∃ digits, toString j = digits ++ toString i ∧ p = q ++ digits := by
  constructor
  · intro heq
    have hlist : p.toList ++ (toString i).toList = q.toList ++ (toString j).toList := by
      rw [← String.toList_append, ← String.toList_append, heq]
    rcases List.append_eq_append_iff.mp hlist with ⟨cs, -, hcs⟩ | ⟨cs, hp, hcs⟩
    · refine absurd (String.toList_inj.mp ?_) (toString_ne_append h (String.ofList cs))
      rw [String.toList_append, String.toList_ofList, hcs]
    · refine ⟨String.ofList cs, String.toList_inj.mp ?_, String.toList_inj.mp ?_⟩
      · rw [String.toList_append, String.toList_ofList, hcs]
      · rw [String.toList_append, String.toList_ofList, hp]
  · rintro ⟨digits, hj, rfl⟩
    rw [hj, String.append_assoc]

section Stems

variable {stems : List String} (hlen : stems.length < UInt64.size)
include hlen

theorem name_eq_name_iff {i j : Nat} {p q : String} (hij : i < j) (hp : stems[i]? = some p)
    (hq : stems[j]? = some q) : (start.names stems)[i]? = (start.names stems)[j]? ↔
      ∃ digits, toString j = digits ++ toString i ∧ p = q ++ digits := by
  have hj : j < UInt64.size := by
    obtain ⟨hj, -⟩ := List.getElem?_eq_some_iff.mp hq
    omega
  rw [names_getElem?, names_getElem?, hp, hq, Option.map_some, Option.map_some,
    peek_start_after (Nat.lt_trans hij hj), peek_start_after hj, Option.some_inj,
    ← append_toString_eq_iff hij]
  exact ⟨congrArg Symbol.name, congrArg Symbol.plain⟩

theorem nodup_names_iff : (start.names stems).Nodup ↔
    ∀ (i j : Nat) (p q : String), i < j → stems[i]? = some p → stems[j]? = some q →
      ∀ digits, toString j = digits ++ toString i → p ≠ q ++ digits := by
  rw [List.nodup_iff_getElem?_ne_getElem?, length_names]
  constructor
  · intro h i j p q hij hp hq digits hj hpq
    obtain ⟨hlt, -⟩ := List.getElem?_eq_some_iff.mp hq
    exact h i j hij hlt ((name_eq_name_iff hlen hij hp hq).mpr ⟨digits, hj, hpq⟩)
  · intro h i j hij hlt heq
    have hp := List.getElem?_eq_getElem (Nat.lt_trans hij hlt)
    have hq := List.getElem?_eq_getElem hlt
    obtain ⟨digits, hj, hpq⟩ := (name_eq_name_iff hlen hij hp hq).mp heq
    exact h i j _ _ hij hp hq digits hj hpq

theorem nodup_names_of_stems (h : ∀ p ∈ stems, ∀ q ∈ stems, ∀ digits : String, digits ≠ "" →
    (∀ c ∈ digits.toList, c.isDigit) → p ≠ q ++ digits) : (start.names stems).Nodup := by
  rw [nodup_names_iff hlen]
  intro i j p q hij hp hq digits hj
  refine h p (List.mem_of_getElem? hp) q (List.mem_of_getElem? hq) digits ?_ fun c hc => ?_
  · rintro rfl
    have heq : i = j := eq_of_toString_eq (hj.trans String.empty_append).symm
    omega
  · have hmem : c ∈ (toString j).toList := by
      rw [hj, String.toList_append]
      exact List.mem_append_left _ hc
    rw [Nat.toString_eq_repr, Nat.toList_repr] at hmem
    exact Nat.isDigit_of_mem_toDigits (by decide) (by decide) hmem

end Stems

/-- Two names are the same exactly if the number of the later one is some digits and the number of
the earlier one, and the earlier stem is the later stem with these digits behind it. Nothing else
makes a fresh supply repeat a name, and with stems of which none continues another in digits nothing
does. -/
theorem names_repeated_iff (stems : List String) (hlen : stems.length < UInt64.size) :
    (∀ (i j : Nat) (p q : String), i < j → stems[i]? = some p → stems[j]? = some q →
      ((start.names stems)[i]? = (start.names stems)[j]? ↔
        ∃ digits, toString j = digits ++ toString i ∧ p = q ++ digits)) ∧
    ((start.names stems).Nodup ↔
      ∀ (i j : Nat) (p q : String), i < j → stems[i]? = some p → stems[j]? = some q →
        ∀ digits, toString j = digits ++ toString i → p ≠ q ++ digits) ∧
    ((∀ p ∈ stems, ∀ q ∈ stems, ∀ digits : String, digits ≠ "" →
      (∀ c ∈ digits.toList, c.isDigit) → p ≠ q ++ digits) → (start.names stems).Nodup) :=
  ⟨fun _ _ _ _ hij hp hq => name_eq_name_iff hlen hij hp hq, nodup_names_iff hlen,
    nodup_names_of_stems hlen⟩

theorem names_repeated_iff_letters :
    let stems := "b" :: List.replicate 9 "a" ++ ["b"]
    stems.length < UInt64.size ∧ (start.names stems).Nodup ∧
      ((start.names stems)[0]? = (start.names stems)[10]? ↔
        ∃ digits, toString 10 = digits ++ toString 0 ∧ "b" = "b" ++ digits) := by
  intro stems
  have hlen : stems.length < UInt64.size := by decide
  obtain ⟨hrepeated, -, hnodup⟩ := names_repeated_iff stems hlen
  refine ⟨hlen, hnodup fun p hp q _ digits hne hdigits heq => ?_,
    hrepeated 0 10 "b" "b" (by decide) rfl rfl⟩
  obtain ⟨c, hc⟩ := List.exists_mem_of_ne_nil _ (mt String.toList_eq_nil_iff.mp hne)
  have hmem : c ∈ p.toList := by
    rw [heq, String.toList_append]
    exact List.mem_append_right _ hc
  have hstem : p = "a" ∨ p = "b" := by
    simp only [stems, List.cons_append, List.mem_cons, List.mem_append, List.mem_replicate,
      List.not_mem_nil, or_false] at hp
    tauto
  have hletter : c = 'a' ∨ c = 'b' := by
    rcases hstem with rfl | rfl
    · exact .inl (List.mem_singleton.mp hmem)
    · exact .inr (List.mem_singleton.mp hmem)
  have hdigit := hdigits c hc
  rcases hletter with rfl | rfl
  · exact absurd hdigit (by decide)
  · exact absurd hdigit (by decide)

/-- The first name, for `x1`, and the eleventh name, for `x`, are the same. -/
theorem name_repeated_for_numbered_stem :
    let stems := "x1" :: List.replicate 9 "y" ++ ["x"]
    (start.names stems)[0]? = some (.plain "x10") ∧
      (start.names stems)[10]? = some (.plain "x10") ∧ ¬(start.names stems).Nodup := by
  decide

end LispFront.NameSupply
