import LispFront.Form.Order
import LispFront.Form.Print

/-!
# Forms without their metadata

`bare` drops metadata at every depth. Equality of forms is equality of what is left, and neither
the order nor the text of a form looks at more.
-/

namespace LispFront.Form

/-- Induction over forms; nothing is said of what stands in metadata. -/
@[elab_as_elim]
theorem induct {P : Form → Prop} (nil : P .nil) (bool : ∀ b, P (.bool b))
    (number : ∀ n, P (.number n)) (string : ∀ s, P (.string s)) (char : ∀ c, P (.char c))
    (keyword : ∀ k, P (.keyword k)) (symbol : ∀ s m, P (.symbol s m))
    (regex : ∀ source, P (.regex source)) (list : ∀ es m, (∀ e ∈ es, P e) → P (.list es m))
    (vector : ∀ es m, (∀ e ∈ es, P e) → P (.vector es m))
    (map : ∀ es m, (∀ e ∈ es, P e.1 ∧ P e.2) → P (.map es m))
    (set : ∀ es m, (∀ e ∈ es, P e) → P (.set es m)) (var : ∀ v, P (.var v)) (f : Form) : P f := by
  -- on the size: what the elements of a list are part of is the list, not the form
  induction hn : sizeOf f using Nat.strongRecOn generalizing f with
  | ind n ih =>
    have hmem {es : List Form} (hes : sizeOf es < n) (e : Form) (he : e ∈ es) : P e :=
      ih _ (Nat.lt_trans (List.sizeOf_lt_of_mem he) hes) e rfl
    cases f with
    | nil => exact nil
    | bool b => exact bool b
    | number k => exact number k
    | string s => exact string s
    | char c => exact char c
    | keyword k => exact keyword k
    | symbol s m => exact symbol s m
    | regex source => exact regex source
    | list es m => exact list es m (hmem (by simp at hn; omega))
    | vector es m => exact vector es m (hmem (by simp at hn; omega))
    | map es m =>
      refine map es m fun e he => ?_
      have he := List.sizeOf_lt_of_mem he
      obtain ⟨k, v⟩ := e
      simp at hn he
      exact ⟨ih _ (by omega) k rfl, ih _ (by omega) v rfl⟩
    | set es m => exact set es m (hmem (by simp at hn; omega))
    | var v => exact var v

mutual

def bare : Form → Form
  | .symbol s _ => .symbol s []
  | .list es _ => .list (bareElems es) []
  | .vector es _ => .vector (bareElems es) []
  | .map es _ => .map (bareEntries es) []
  | .set es _ => .set (bareElems es) []
  | f => f

def bareElems : List Form → List Form
  | [] => []
  | e :: es => bare e :: bareElems es

def bareEntries : List (Form × Form) → List (Form × Form)
  | [] => []
  | (k, v) :: es => (bare k, bare v) :: bareEntries es

end

theorem bareElems_eq (es : List Form) : bareElems es = es.map bare := by
  induction es with
  | nil => rfl
  | cons e es ih => rw [bareElems, ih, List.map_cons]

theorem bareEntries_eq (es : List (Form × Form)) :
    bareEntries es = es.map fun e => (bare e.1, bare e.2) := by
  induction es with
  | nil => rfl
  | cons e es ih =>
    obtain ⟨k, v⟩ := e
    rw [bareEntries, ih, List.map_cons]

@[simp] theorem length_bareElems (es : List Form) : (bareElems es).length = es.length := by
  rw [bareElems_eq, List.length_map]

@[simp] theorem length_bareEntries (es : List (Form × Form)) :
    (bareEntries es).length = es.length := by
  rw [bareEntries_eq, List.length_map]

theorem bareElems_bare {es : List Form} (h : ∀ e ∈ es, e.bare.bare = e.bare) :
    bareElems (bareElems es) = bareElems es := by
  rw [bareElems_eq, bareElems_eq, List.map_map]
  exact List.map_congr_left h

theorem bareEntries_bare {es : List (Form × Form)}
    (h : ∀ e ∈ es, e.1.bare.bare = e.1.bare ∧ e.2.bare.bare = e.2.bare) :
    bareEntries (bareEntries es) = bareEntries es := by
  rw [bareEntries_eq, bareEntries_eq, List.map_map]
  exact List.map_congr_left fun e he => Prod.ext (h e he).1 (h e he).2

theorem bare_bare (f : Form) : f.bare.bare = f.bare := by
  induction f using induct with
  | list es m ih | vector es m ih | set es m ih => simp only [bare, bareElems_bare ih]
  | map es m ih => simp only [bare, bareEntries_bare ih]
  | _ => rfl

theorem textElems_bare {es : List Form} (h : ∀ e ∈ es, (bare e).text = e.text) :
    textElems (bareElems es) = textElems es := by
  induction es with
  | nil => rfl
  | cons e es ih =>
    obtain ⟨he, hes⟩ := List.forall_mem_cons.mp h
    cases es with
    | nil => simp only [bareElems, textElems, he]
    | cons e' es =>
      have h := ih hes
      simp only [bareElems, textElems] at h ⊢
      rw [he, h]

theorem textEntries_bare {es : List (Form × Form)}
    (h : ∀ e ∈ es, (bare e.1).text = e.1.text ∧ (bare e.2).text = e.2.text) :
    textEntries (bareEntries es) = textEntries es := by
  induction es with
  | nil => rfl
  | cons e es ih =>
    obtain ⟨k, v⟩ := e
    obtain ⟨⟨hk, hv⟩, hes⟩ := List.forall_mem_cons.mp h
    cases es with
    | nil => simp only [bareEntries, textEntries, hk, hv]
    | cons e' es =>
      have h := ih hes
      simp only [bareEntries, textEntries] at h ⊢
      rw [hk, hv, h]

theorem text_bare (f : Form) : f.bare.text = f.text := by
  induction f using induct with
  | list es m ih | vector es m ih | set es m ih => simp only [bare, text, textElems_bare ih]
  | map es m ih => simp only [bare, text, textEntries_bare ih]
  | _ => rfl

theorem beqElems_iff {xs ys : List Form}
    (h : ∀ x ∈ xs, ∀ y, beq x y ↔ bare x = bare y) :
    beqElems xs ys ↔ bareElems xs = bareElems ys := by
  induction xs generalizing ys with
  | nil => cases ys <;> simp [beqElems, bareElems]
  | cons x xs ih =>
    obtain ⟨hx, hxs⟩ := List.forall_mem_cons.mp h
    cases ys with
    | nil => simp [beqElems, bareElems]
    | cons y ys => simp [beqElems, bareElems, hx y, ih hxs]

theorem beqEntries_iff {xs ys : List (Form × Form)}
    (h : ∀ x ∈ xs, (∀ y, beq x.1 y ↔ bare x.1 = bare y) ∧ ∀ y, beq x.2 y ↔ bare x.2 = bare y) :
    beqEntries xs ys ↔ bareEntries xs = bareEntries ys := by
  induction xs generalizing ys with
  | nil => cases ys <;> simp [beqEntries, bareEntries]
  | cons x xs ih =>
    obtain ⟨⟨hk, hv⟩, hxs⟩ := List.forall_mem_cons.mp h
    cases ys with
    | nil => simp [beqEntries, bareEntries]
    | cons y ys => simp [beqEntries, bareEntries, hk y.1, hv y.2, ih hxs]

theorem beq_iff_bare {f g : Form} : beq f g ↔ bare f = bare g := by
  induction f using induct generalizing g with
  | list es m ih | vector es m ih | set es m ih => cases g <;> simp [beq, bare, beqElems_iff ih]
  | map es m ih => cases g <;> simp [beq, bare, beqEntries_iff ih]
  | _ => cases g <;> simp [beq, bare]

end LispFront.Form
