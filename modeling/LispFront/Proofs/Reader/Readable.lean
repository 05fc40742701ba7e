import LispFront.Proofs.Form.Order
import LispFront.Proofs.Reader.Invariant

/-!
# What the reader can produce

Forms built from tokens, strings, characters and closed patterns, with the entries of maps and sets
in order. Whatever the reader holds at any moment, open or finished, is of this kind.
-/

namespace LispFront

inductive Readable : Form → Prop
  | spelled {f : Form} : f.Spelled → Readable f
  | string (s : String) : Readable (.string s)
  | char (c : Char) : Readable (.char c)
  | regex {source : String} : Text.scan false source.toList = some false → Readable (.regex source)
  | list {es : List Form} {m : FormMap} : (∀ e ∈ es, Readable e) → Readable (.list es m)
  | vector {es : List Form} {m : FormMap} : (∀ e ∈ es, Readable e) → Readable (.vector es m)
  | map {es m : FormMap} : Sorted.Increasing (fun a b => a.1.cmp b.1) es →
      (∀ e ∈ es, Readable e.1) → (∀ e ∈ es, Readable e.2) → Readable (.map es m)
  | set {es : FormSet} {m : FormMap} : Sorted.Increasing Form.cmp es → (∀ e ∈ es, Readable e) →
      Readable (.set es m)

namespace Readable

theorem withMetadata {f g : Form} {m : FormMap} (h : Readable f)
    (hg : f.withMetadata? m = some g) : Readable g := by
  have hbare : g.bare = f.bare := by
    cases f <;> cases hg <;> rfl
  cases h with
  | spelled hf =>
    have htext : g.text = f.text := by
      rw [← Form.text_bare g, hbare, Form.text_bare]
    exact .spelled ⟨htext ▸ hf.isToken, by rw [htext, hbare]; exact hf.denotes⟩
  | string | char | regex => cases hg
  | list hes =>
    cases hg
    exact .list hes
  | vector hes =>
    cases hg
    exact .vector hes
  | map hes hk hv =>
    cases hg
    exact .map hes hk hv
  | set hes he =>
    cases hg
    exact .set hes he

theorem call {name : String} {f : Form} (hname : (Form.sym name).Spelled) (h : Readable f) :
    Readable (.call name [f]) :=
  .list (List.forall_mem_cons.mpr ⟨.spelled hname, by simpa using h⟩)

theorem of_pairs {es : List Form} {entries : List (Form × Form)} (hes : ∀ e ∈ es, Readable e)
    (h : pairs es = some entries) : ∀ e ∈ entries, Readable e.1 ∧ Readable e.2 := by
  fun_induction pairs es generalizing entries with
  | case1 =>
    cases h
    simp
  | case2 => cases h
  | case3 a b l ih =>
    obtain ⟨rest, hrest, rfl⟩ := Option.map_eq_some_iff.mp h
    obtain ⟨ha, hes⟩ := List.forall_mem_cons.mp hes
    obtain ⟨hb, hes⟩ := List.forall_mem_cons.mp hes
    exact List.forall_mem_cons.mpr ⟨⟨ha, hb⟩, ih hes hrest⟩

theorem gather {b : Bracket} {start : Position} {es : List Form} {f : Form}
    (hes : ∀ e ∈ es, Readable e) (h : b.gather start es = .ok f) : Readable f := by
  cases b with
  | round =>
    cases h
    exact .list hes
  | square =>
    cases h
    exact .vector hes
  | curly =>
    unfold Bracket.gather at h
    dsimp only at h
    split at h
    · rename_i entries hpairs
      cases h
      have hentries := of_pairs hes hpairs
      have hmem : ∀ e ∈ FormMap.ofList entries, e ∈ entries := fun e he =>
        (Sorted.mem_insertMany he).resolve_right (by simp)
      exact .map (Sorted.ofList_increasing entries) (fun e he => (hentries e (hmem e he)).1)
        fun e he => (hentries e (hmem e he)).2
    · cases h
  | hashCurly =>
    cases h
    refine .set (Sorted.ofList_increasing es) fun e he => hes e ?_
    exact (Sorted.mem_insertMany he).resolve_right (by simp)

end Readable

theorem readable_char {cs : List Char} {f : Form} (h : Token.char cs = .ok f) : Readable f := by
  unfold Token.char at h
  split at h
  · cases h
    exact .char _
  · cases h

theorem makes_readable : Reader.Makes Readable fun _ => True where
  token hcs h := .spelled (Token.spelled_of_form hcs h)
  char := readable_char
  string := .string
  regex := .regex
  gather := .gather
  call hname := .call (Token.spelled_sym hname)
  metadata _ _ := trivial
  decorated hf _ hg := hf.withMetadata hg

theorem readable_of_read {source : String} {fs : List Form} (h : read source = .ok fs) :
    ∀ f ∈ fs, Readable f :=
  makes_readable.of_read h

end LispFront
