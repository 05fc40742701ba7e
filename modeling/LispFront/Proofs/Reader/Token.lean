import LispFront.Proofs.Except
import LispFront.Proofs.Form.Bare
import LispFront.Proofs.Text.Integer
import LispFront.Reader.Machine

/-!
# Forms that are spelled as tokens

A name has the characters of its token as its text, and a number, `nil`, `true` and `false` have
texts that denote them, though they may have been read from others.
-/

namespace LispFront

def OpensToken (c : Char) : Prop :=
  ∀ s : Reader.State, s.begin c = .ok { s with mode := .token s.next [c] }

def IsToken : List Char → Prop
  | [] => False
  | c :: cs => OpensToken c ∧ ∀ d ∈ cs, Text.continuesToken d

theorem isToken_append {cs : List Char} {c : Char} (h : IsToken cs) (hc : Text.continuesToken c) :
    IsToken (cs ++ [c]) := by
  cases cs with
  | nil => exact h.elim
  | cons d ds =>
    refine ⟨h.1, fun e he => ?_⟩
    rcases List.mem_append.mp he with he | he
    · exact h.2 e he
    · rw [List.mem_singleton.mp he]
      exact hc

/-- The text is a token that denotes the form. -/
structure Form.Spelled (f : Form) : Prop where
  isToken : IsToken f.text.toList
  denotes : Token.form f.text.toList = .ok f.bare

namespace Token

theorem toList_qualifiedText {cs : List Char} {ns : Option String} {name : String}
    (h : splitName cs = .ok (ns, name)) : (qualifiedText ns name).toList = cs := by
  have hcs : cs.takeWhile (· != '/') ++ cs.dropWhile (· != '/') = cs :=
    List.takeWhile_append_dropWhile
  have hhead := List.head?_dropWhile_not (· != '/') cs
  unfold splitName at h
  split at h
  · cases h
  · cases h
    rfl
  · rename_i hdrop
    rw [hdrop, List.append_nil] at hcs
    dsimp only at h
    split at h
    · cases h
    · cases h
      exact String.toList_ofList.trans hcs
  · rename_i slash identifier _ _ hdrop
    rw [hdrop] at hcs hhead
    obtain rfl : slash = '/' := by simpa using hhead
    dsimp only at h
    split at h
    · cases h
    · split at h
      · cases h
      · split at h
        · cases h
        · split at h
          · cases h
          · cases h
            simpa [qualifiedText] using hcs

theorem text_of_name {cs : List Char} {f : Form} (h : name cs = .ok f) :
    f.text.toList = cs ∧ f.bare = f := by
  unfold name at h
  split at h
  · cases h
  · obtain ⟨⟨ns, name⟩, hs, rfl⟩ := map_eq_ok.mp h
    have ht := toList_qualifiedText hs
    exact ⟨by simpa [Form.text, Keyword.text] using ht, rfl⟩
  · obtain ⟨⟨ns, name⟩, hs, rfl⟩ := map_eq_ok.mp h
    exact ⟨toList_qualifiedText hs, rfl⟩

theorem opensToken_of_isDigit {c : Char} (h : Text.isDigit c) : OpensToken c := by
  have hc := Text.mem_digits_of_isDigit h
  simp only [List.mem_cons, List.not_mem_nil, or_false] at hc
  rcases hc with rfl | rfl | rfl | rfl | rfl | rfl | rfl | rfl | rfl | rfl <;> exact fun _ => rfl

theorem continuesToken_of_isDigit {c : Char} (h : Text.isDigit c) : Text.continuesToken c := by
  have hall : ∀ c ∈ ['0', '1', '2', '3', '4', '5', '6', '7', '8', '9'], Text.continuesToken c :=
    List.all_eq_true.mp rfl
  exact hall c (Text.mem_digits_of_isDigit h)

theorem spelled_nil : Form.Spelled .nil := ⟨⟨fun _ => rfl, List.all_eq_true.mp rfl⟩, rfl⟩

theorem spelled_bool (b : Bool) : Form.Spelled (.bool b) := by
  cases b with
  | false => exact ⟨⟨fun _ => rfl, List.all_eq_true.mp rfl⟩, rfl⟩
  | true => exact ⟨⟨fun _ => rfl, List.all_eq_true.mp rfl⟩, rfl⟩

theorem isToken_number (sign : Text.Sign) {d : Char} {cs : List Char} (hd : Text.isDigit d)
    (hcs : ∀ c ∈ cs, Text.continuesToken c) : IsToken (sign.text.toList ++ d :: cs) := by
  cases sign with
  | none => exact ⟨opensToken_of_isDigit hd, hcs⟩
  | plus | minus =>
    exact ⟨fun _ => rfl, List.forall_mem_cons.mpr ⟨continuesToken_of_isDigit hd, hcs⟩⟩

theorem isToken_toString (n : Int) : IsToken (toString n).toList := by
  obtain ⟨sign, d, ds, hds, -, htext⟩ := Text.toList_toString n
  obtain ⟨hd, hds⟩ := List.forall_mem_cons.mp hds
  rw [htext]
  exact isToken_number sign hd fun c hc => continuesToken_of_isDigit (hds c hc)

theorem spelled_number (n : Int64) : Form.Spelled (.number n) := by
  refine ⟨isToken_toString n.toInt, ?_⟩
  change form (toString n.toInt).toList = .ok (.number n)
  rw [form, if_pos (Text.startsNumber_toString _), Text.integer_toString]

theorem spelled_sym {name : String} (h : name ∈ ["quote", "deref", "var"]) :
    Form.Spelled (.sym name) := by
  simp only [List.mem_cons, List.not_mem_nil, or_false] at h
  rcases h with rfl | rfl | rfl <;> exact ⟨⟨fun _ => rfl, List.all_eq_true.mp rfl⟩, rfl⟩

theorem spelled_of_form {cs : List Char} {f : Form} (hcs : IsToken cs) (h : form cs = .ok f) :
    f.Spelled := by
  have hform := h
  unfold form at h
  split at h
  · split at h
    · cases h
      exact spelled_number _
    · cases h
  · split at h
    · cases h
      exact spelled_nil
    · cases h
      exact spelled_bool true
    · cases h
      exact spelled_bool false
    · obtain ⟨rfl, hbare⟩ := text_of_name h
      exact ⟨hcs, by rw [hform, hbare]⟩

end Token

end LispFront
