import LispFront.Proofs.Form.WellFormed
import LispFront.Proofs.Related

/-!
# Forms read from other places

`withoutSource` drops the metadata that says where a form was read, at every depth and also within
the metadata that stays. A form is relocated if nothing else of it changes; both forms have to be
well-formed.
-/

namespace LispFront

open Std
open List (Forall₂)

namespace FormMap

def without (ks : List String) (m : FormMap) : FormMap :=
  ks.foldl (fun m k => m.erase (.key k)) m

def sourceKeys : List String := ["line", "column", "end-line", "end-column", "file"]

theorem withoutSource_eq (m : FormMap) : m.withoutSource = m.without sourceKeys := rfl

variable {m : FormMap} {ks : List String} {k : String}

theorem without_sublist (ks : List String) (m : FormMap) : (m.without ks).Sublist m := by
  induction ks generalizing m with
  | nil => exact List.Sublist.refl m
  | cons k ks ih => exact (ih (m.erase (.key k))).trans (Sorted.erase_sublist _ m)

theorem cmp_key_ne {k k' : String} (h : k ≠ k') : (Form.key k).cmp (.key k') ≠ .eq := by
  intro hcmp
  have hcmp : (Keyword.plain k).cmp (.plain k') = .eq := hcmp
  exact h (congrArg Keyword.name (LawfulEqCmp.eq_of_compare hcmp))

theorem find?_without (hk : k ∉ ks) (hm : m.Increasing) :
    (m.without ks).find? (.key k) = m.find? (.key k) := by
  induction ks generalizing m with
  | nil => rfl
  | cons k' ks ih =>
    obtain ⟨hne, hks⟩ : k ≠ k' ∧ k ∉ ks := by simpa using hk
    have herase := Sorted.find?_erase_of_ne Form.cmp Prod.fst (cmp_key_ne hne) hm
    have hrest := ih (m := m.erase (.key k')) hks (Sorted.erase_increasing _ hm)
    exact hrest.trans (congrArg (Option.map Prod.snd) herase)

theorem without_insert (hk : k ∉ ks) (v : Form) (hm : m.Increasing) :
    (m.insert (.key k) v).without ks = (m.without ks).insert (.key k) v := by
  induction ks generalizing m with
  | nil => rfl
  | cons k' ks ih =>
    obtain ⟨hne, hks⟩ : k ≠ k' ∧ k ∉ ks := by simpa using hk
    have herase := Sorted.erase_insert_of_ne Form.cmp Prod.fst (a := (.key k, v))
      (cmp_key_ne (Ne.symm hne)) hm
    have hrest := ih (m := m.erase (.key k')) hks (Sorted.erase_increasing _ hm)
    exact (congrArg (without ks) herase).trans hrest

end FormMap

namespace Form

mutual

def withoutSource : Form → Form
  | .symbol s m => .symbol s (FormMap.withoutSource (withoutSourceEntries m))
  | .list es m => .list (withoutSourceElems es) (FormMap.withoutSource (withoutSourceEntries m))
  | .vector es m => .vector (withoutSourceElems es) (FormMap.withoutSource (withoutSourceEntries m))
  | .map es m => .map (withoutSourceEntries es) (FormMap.withoutSource (withoutSourceEntries m))
  | .set es m => .set (withoutSourceElems es) (FormMap.withoutSource (withoutSourceEntries m))
  | f => f

def withoutSourceElems : List Form → List Form
  | [] => []
  | e :: es => withoutSource e :: withoutSourceElems es

def withoutSourceEntries : List (Form × Form) → List (Form × Form)
  | [] => []
  | (k, v) :: es => (withoutSource k, withoutSource v) :: withoutSourceEntries es

end

/-- The forms are equal, and at every depth their metadata is but for where they were read. -/
def SameButSource (f g : Form) : Prop := f.withoutSource = g.withoutSource

theorem withoutSourceElems_eq (es : List Form) : withoutSourceElems es = es.map withoutSource := by
  induction es with
  | nil => rfl
  | cons e es ih => rw [withoutSourceElems, ih, List.map_cons]

theorem withoutSourceEntries_eq (es : List (Form × Form)) :
    withoutSourceEntries es = es.map fun e => (withoutSource e.1, withoutSource e.2) := by
  induction es with
  | nil => rfl
  | cons e es ih =>
    obtain ⟨k, v⟩ := e
    rw [withoutSourceEntries, ih, List.map_cons]

theorem sameElems_iff {es es' : List Form} :
    withoutSourceElems es = withoutSourceElems es' ↔ Forall₂ SameButSource es es' := by
  rw [withoutSourceElems_eq, withoutSourceElems_eq, ← List.forall₂_eq_eq_eq,
    List.forall₂_map_left_iff, List.forall₂_map_right_iff]
  rfl

theorem sameEntries_iff {es es' : FormMap} :
    withoutSourceEntries es = withoutSourceEntries es' ↔
      Forall₂ (fun e e' => e.1.SameButSource e'.1 ∧ e.2.SameButSource e'.2) es es' := by
  rw [withoutSourceEntries_eq, withoutSourceEntries_eq, ← List.forall₂_eq_eq_eq,
    List.forall₂_map_left_iff, List.forall₂_map_right_iff]
  simp only [Prod.mk.injEq]
  rfl

theorem bareElems_withoutSource {es : List Form} (h : ∀ e ∈ es, e.withoutSource.bare = e.bare) :
    bareElems (withoutSourceElems es) = bareElems es := by
  rw [bareElems_eq, bareElems_eq, withoutSourceElems_eq, List.map_map]
  exact List.map_congr_left h

theorem bareEntries_withoutSource {es : FormMap}
    (h : ∀ e ∈ es, e.1.withoutSource.bare = e.1.bare ∧ e.2.withoutSource.bare = e.2.bare) :
    bareEntries (withoutSourceEntries es) = bareEntries es := by
  rw [bareEntries_eq, bareEntries_eq, withoutSourceEntries_eq, List.map_map]
  exact List.map_congr_left fun e he => Prod.ext (h e he).1 (h e he).2

theorem bare_withoutSource (f : Form) : f.withoutSource.bare = f.bare := by
  induction f using induct with
  | list es m ih | vector es m ih | set es m ih =>
    simp only [withoutSource, bare, bareElems_withoutSource ih]
  | map es m ih => simp only [withoutSource, bare, bareEntries_withoutSource ih]
  | _ => rfl

namespace SameButSource

variable {f f' g g' : Form}

theorem bare_eq (h : f.SameButSource f') : f.bare = f'.bare := by
  rw [← bare_withoutSource f, ← bare_withoutSource f', h]

theorem beq (h : f.SameButSource f') : f == f' := beq_iff_bare.mpr h.bare_eq

theorem beq_eq (h : f.SameButSource f') (h' : g.SameButSource g') : (f == g) = (f' == g') := by
  apply Bool.eq_iff_iff.mpr
  change f.beq g ↔ f'.beq g'
  rw [beq_iff_bare, beq_iff_bare, h.bare_eq, h'.bare_eq]

theorem cmp_eq (h : f.SameButSource f') (h' : g.SameButSource g') : f.cmp g = f'.cmp g' := by
  rw [← cmp_bare f, ← cmp_bare f', h.bare_eq, h'.bare_eq]

end SameButSource

theorem cmp_withoutSource (f g : Form) : f.withoutSource.cmp g.withoutSource = f.cmp g := by
  rw [← cmp_bare, bare_withoutSource, bare_withoutSource, cmp_bare]

theorem withoutSourceEntries_without (ks : List String) (m : FormMap) :
    withoutSourceEntries (m.without ks) = FormMap.without ks (withoutSourceEntries m) := by
  induction ks generalizing m with
  | nil => rfl
  | cons k ks ih =>
    have hprobe : ∀ f : Form, (key k).cmp f.withoutSource = (key k).cmp f :=
      cmp_withoutSource (.key k)
    have herase : FormMap.erase (withoutSourceEntries m) (.key k) =
        withoutSourceEntries (m.erase (.key k)) := by
      unfold FormMap.erase
      rw [withoutSourceEntries_eq, withoutSourceEntries_eq, Sorted.erase_map]
      simp only [hprobe]
    change withoutSourceEntries ((m.erase (.key k)).without ks) =
      FormMap.without ks (FormMap.erase (withoutSourceEntries m) (.key k))
    rw [ih, herase]

end Form

theorem Form.rank_withoutSource (f : Form) : f.withoutSource.rank = f.rank := by
  cases f <;> rfl

theorem Form.metadata_withoutSource (f : Form) :
    f.withoutSource.metadata = withoutSourceEntries f.metadata.withoutSource := by
  rw [FormMap.withoutSource_eq, withoutSourceEntries_without]
  cases f <;> rfl

/-- The form as it could be if it had been read from another place. -/
structure Form.Relocated (f f' : Form) : Prop where
  left : f.WellFormed
  right : f'.WellFormed
  same : f.SameButSource f'

def FormMap.SameButSource (m m' : FormMap) : Prop :=
  Forall₂ (fun e e' => e.1.SameButSource e'.1 ∧ e.2.SameButSource e'.2)
    m.withoutSource m'.withoutSource

theorem FormMap.SameButSource.refl (m : FormMap) : m.SameButSource m :=
  List.forall₂_same.mpr fun _ _ => ⟨rfl, rfl⟩

structure FormMap.Relocated (m m' : FormMap) : Prop where
  left : m.WellFormed
  right : m'.WellFormed
  same : m.SameButSource m'

namespace Form.Relocated

variable {f f' g g' : Form} {es es' : List Form}

theorem refl (h : f.WellFormed) : f.Relocated f := ⟨h, h, rfl⟩

theorem of_elems (hl : ∀ e ∈ es, e.WellFormed) (hr : ∀ e ∈ es', e.WellFormed)
    (h : withoutSourceElems es = withoutSourceElems es') : Forall₂ Form.Relocated es es' :=
  related_of_mem (sameElems_iff.mp h) fun e he e' he' hsame => ⟨hl e he, hr e' he', hsame⟩

theorem of_entries {m m' : FormMap} (hm : m.WellFormed) (hm' : m'.WellFormed)
    (h : withoutSourceEntries m = withoutSourceEntries m') :
    Forall₂ (fun e e' => e.1.Relocated e'.1 ∧ e.2.Relocated e'.2) m m' :=
  related_of_mem (sameEntries_iff.mp h) fun e he e' he' hsame =>
    ⟨⟨hm.keys e he, hm'.keys e' he', hsame.1⟩, ⟨hm.vals e he, hm'.vals e' he', hsame.2⟩⟩

theorem elems (h : Forall₂ Form.Relocated es es') :
    (∀ e ∈ es, e.WellFormed) ∧ (∀ e ∈ es', e.WellFormed) ∧
      withoutSourceElems es = withoutSourceElems es' := by
  rw [sameElems_iff]
  induction h with
  | nil => exact ⟨by simp, by simp, .nil⟩
  | cons he _ ih =>
    obtain ⟨hl, hr, hsame⟩ := ih
    exact ⟨List.forall_mem_cons.mpr ⟨he.left, hl⟩, List.forall_mem_cons.mpr ⟨he.right, hr⟩,
      .cons he.same hsame⟩

theorem nil : Form.Relocated .nil .nil := refl .nil

theorem sym (name : String) : (Form.sym name).Relocated (.sym name) :=
  refl (.symbol _ .nil (by simp) (by simp))

theorem list (h : Forall₂ Form.Relocated es es') : (Form.list es []).Relocated (.list es' []) := by
  obtain ⟨hl, hr, hsame⟩ := elems h
  refine ⟨.list hl .nil (by simp) (by simp), .list hr .nil (by simp) (by simp), ?_⟩
  exact congrArg (Form.list · []) hsame

theorem metadata (h : f.Relocated f') : f.metadata.Relocated f'.metadata := by
  refine ⟨.of_metadata h.left, .of_metadata h.right, sameEntries_iff.mp ?_⟩
  rw [← metadata_withoutSource, ← metadata_withoutSource, h.same]

theorem alike (h : f.SameButSource f') : f.Alike f' := by
  refine alike_of_rank_eq ?_
  rw [← rank_withoutSource f, ← rank_withoutSource f', h]

theorem matches_of (h : f.Relocated f') : f.Matches Form.Relocated f' := by
  have hkind := alike h.same
  obtain ⟨hl, hr, hsame⟩ := h
  cases hkind with
  | nil => exact .nil
  | bool =>
    cases hsame
    exact .bool _
  | number =>
    cases hsame
    exact .number _
  | string =>
    cases hsame
    exact .string _
  | char =>
    cases hsame
    exact .char _
  | keyword =>
    cases hsame
    exact .keyword _
  | symbol =>
    injection hsame with hs
    cases hs
    exact .symbol _ _ _
  | regex =>
    cases hsame
    exact .regex _
  | list =>
    injection hsame with hes
    cases hl with | list hl => cases hr with | list hr => exact .list _ _ (of_elems hl hr hes)
  | vector =>
    injection hsame with hes
    cases hl with | vector hl => cases hr with | vector hr => exact .vector _ _ (of_elems hl hr hes)
  | map =>
    injection hsame with hes
    cases hl with
    | map hl hlk hlv =>
      cases hr with
      | map hr hrk hrv => exact .map _ _ (of_entries ⟨hl, hlk, hlv⟩ ⟨hr, hrk, hrv⟩ hes)
  | set =>
    injection hsame with hes
    cases hl with | set _ hl => cases hr with | set _ hr => exact .set _ _ (of_elems hl hr hes)
  | var =>
    cases hsame
    exact .var _

end Form.Relocated

namespace FormMap.Relocated

variable {m m' : FormMap} {k : String} (h : m.Relocated m')
include h

theorem toForm : (Form.map m.withoutSource []).Relocated (.map m'.withoutSource []) := by
  refine ⟨(h.left.sublist (without_sublist sourceKeys m)).toForm,
    (h.right.sublist (without_sublist sourceKeys m')).toForm, ?_⟩
  exact congrArg (Form.map · []) (Form.sameEntries_iff.mpr h.same)

theorem symbol (s : Symbol) : (Form.symbol s m).Relocated (.symbol s m') := by
  refine ⟨.symbol s h.left.increasing h.left.keys h.left.vals,
    .symbol s h.right.increasing h.right.keys h.right.vals, ?_⟩
  have hsame := Form.sameEntries_iff.mpr h.same
  rw [withoutSource_eq, withoutSource_eq, Form.withoutSourceEntries_without,
    Form.withoutSourceEntries_without] at hsame
  exact congrArg (Form.symbol s) hsame

variable (hk : k ∉ sourceKeys)
include hk

theorem find? : Option.Rel Form.Relocated (m.find? (.key k)) (m'.find? (.key k)) := by
  have hentry := Sorted.related_find?
    (fun _ _ he => Form.SameButSource.cmp_eq (f := .key k) rfl he.1) h.same
  have hl : ∀ v, m.withoutSource.find? (.key k) = some v → v.WellFormed := fun v =>
    (h.left.sublist (without_sublist sourceKeys m)).find?
  have hr : ∀ v, m'.withoutSource.find? (.key k) = some v → v.WellFormed := fun v =>
    (h.right.sublist (without_sublist sourceKeys m')).find?
  rw [← find?_without hk h.left.increasing, ← find?_without hk h.right.increasing,
    ← withoutSource_eq, ← withoutSource_eq]
  unfold FormMap.find? at hl hr ⊢
  generalize Sorted.find? _ m.withoutSource = e at hentry hl ⊢
  generalize Sorted.find? _ m'.withoutSource = e' at hentry hr ⊢
  cases hentry with
  | none => exact .none
  | some he => exact .some ⟨hl _ rfl, hr _ rfl, he.2⟩

theorem insert {v v' : Form} (hv : v.Relocated v') :
    (m.insert (.key k) v).Relocated (m'.insert (.key k) v') := by
  refine ⟨h.left.insert (.keyword _) hv.left, h.right.insert (.keyword _) hv.right, ?_⟩
  unfold SameButSource
  rw [withoutSource_eq, withoutSource_eq, without_insert hk v h.left.increasing,
    without_insert hk v' h.right.increasing]
  exact Sorted.related_insert (fun _ _ _ _ ha hb => ha.1.cmp_eq hb.1) ⟨rfl, hv.same⟩ h.same

end FormMap.Relocated

end LispFront
