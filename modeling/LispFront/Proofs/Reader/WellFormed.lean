import LispFront.Proofs.Form.WellFormed
import LispFront.Proofs.Reader.Invariant

/-!
# What is read is well-formed

The reader puts maps, sets and metadata together by insertion, so at every depth of a form that it
returns they are sorted, a key occurring once.
-/

namespace LispFront

theorem Position.wellFormed_metadata (p : Position) : p.metadata.WellFormed :=
  FormMap.WellFormed.empty.merge
    (by simp [Form.key, Form.WellFormed.keyword, Form.WellFormed.number])

namespace Token

theorem wellFormed_of_form {cs : List Char} {f : Form} (h : form cs = .ok f) : f.WellFormed := by
  unfold form at h
  split at h
  · split at h
    · cases h
      exact .number _
    · cases h
  · split at h
    · cases h
      exact .nil
    · cases h
      exact .bool true
    · cases h
      exact .bool false
    · unfold name at h
      split at h
      · cases h
      · obtain ⟨x, -, rfl⟩ := map_eq_ok.mp h
        exact .keyword _
      · obtain ⟨x, -, rfl⟩ := map_eq_ok.mp h
        exact FormMap.WellFormed.empty.symbol _

theorem wellFormed_of_char {cs : List Char} {f : Form} (h : char cs = .ok f) : f.WellFormed := by
  unfold char at h
  split at h
  · cases h
    exact .char _
  · cases h

end Token

theorem wellFormed_of_pairs {es : List Form} {entries : List (Form × Form)}
    (hes : ∀ e ∈ es, e.WellFormed) (h : pairs es = some entries) :
    ∀ e ∈ entries, e.1.WellFormed ∧ e.2.WellFormed := by
  fun_induction pairs es generalizing entries with
  | case1 =>
    cases h
    simp
  | case2 => cases h
  | case3 a b l ih =>
    obtain ⟨rest, hrest, rfl⟩ := Option.map_eq_some_iff.mp h
    obtain ⟨ha, hes⟩ := List.forall_mem_cons.mp hes
    obtain ⟨hb, hes⟩ := List.forall_mem_cons.mp hes
    exact List.forall_mem_cons.mpr ⟨⟨ha, hb⟩, ih hes hrest⟩

theorem Bracket.wellFormed_of_gather {b : Bracket} {start : Position} {es : List Form} {f : Form}
    (hes : ∀ e ∈ es, e.WellFormed) (h : b.gather start es = .ok f) : f.WellFormed := by
  cases b with
  | round =>
    cases h
    obtain ⟨hm, hk, hv⟩ := start.wellFormed_metadata
    exact .list hes hm hk hv
  | square =>
    cases h
    exact .vector hes .nil (by simp) (by simp)
  | curly =>
    unfold gather at h
    dsimp only at h
    split at h
    · rename_i entries hpairs
      cases h
      exact (FormMap.WellFormed.empty.merge (wellFormed_of_pairs hes hpairs)).toForm
    · cases h
  | hashCurly =>
    cases h
    refine .set (Sorted.ofList_increasing es) (fun e he => hes e ?_) .nil (by simp) (by simp)
    exact (Sorted.mem_insertMany he).resolve_right (by simp)

theorem Form.wellFormed_of_asMetadata? {f : Form} {m : FormMap} (h : f.WellFormed)
    (hm : f.asMetadata? = some m) : m.WellFormed := by
  have hsingle {k v : Form} (hk : k.WellFormed) (hv : v.WellFormed) :
      FormMap.WellFormed [(k, v)] := FormMap.WellFormed.empty.insert hk hv
  cases f with
  | map entries metadata =>
    cases hm
    cases h with
    | map hes hk hv => exact ⟨hes, hk, hv⟩
  | keyword k =>
    cases hm
    exact hsingle (.keyword k) (.bool true)
  | symbol s metadata =>
    cases hm
    exact hsingle (.keyword _) h
  | string s =>
    cases hm
    exact hsingle (.keyword _) h
  | _ => cases hm

theorem makes_wellFormed : Reader.Makes Form.WellFormed FormMap.WellFormed where
  token _ h := Token.wellFormed_of_form h
  char h := Token.wellFormed_of_char h
  string := .string
  regex _ := .regex _
  gather := Bracket.wellFormed_of_gather
  call _ hf := .call (by simpa using hf)
  metadata := Form.wellFormed_of_asMetadata?
  decorated hf hm hg := by
    refine hf.withMetadata? ((FormMap.WellFormed.of_metadata hf).merge fun e he => ?_) hg
    exact ⟨hm.keys e he, hm.vals e he⟩

/-- Maps, sets and metadata are sorted in all that is read, at every depth. -/
theorem wellFormed_of_read {source : String} {fs : List Form} (h : read source = .ok fs) :
    ∀ f ∈ fs, f.WellFormed :=
  makes_wellFormed.of_read h

end LispFront
