import Mathlib.Algebra.Order.Group.Multiset
import Mathlib.Data.List.Flatten
import LispFront.Form.Collection
import LispFront.Proofs.Form.Bare
import LispFront.Proofs.Sorted

/-!
# What a form holds

The occurrences of forms within a form, the form itself included, and the places that the lists
among them say they were read at. A form may occur more than once and then counts as often. What
sorts forms or drops some of them adds no place.
-/

namespace LispFront

theorem subperm_flatMap {l l' : List α} (h : l.Subperm l') (f : α → List β) :
    (l.flatMap f).Subperm (l'.flatMap f) := by
  obtain ⟨m, hperm, hsub⟩ := h
  exact ⟨m.flatMap f, hperm.flatMap_right f, hsub.flatMap f⟩

namespace Form

mutual

def occurrences : Form → List Form
  | .list es m => .list es m :: occurrencesInElems es
  | .vector es m => .vector es m :: occurrencesInElems es
  | .map es m => .map es m :: occurrencesInEntries es
  | .set es m => .set es m :: occurrencesInElems es
  | f => [f]

def occurrencesInElems : List Form → List Form
  | [] => []
  | e :: es => occurrences e ++ occurrencesInElems es

def occurrencesInEntries : List (Form × Form) → List Form
  | [] => []
  | (k, v) :: es => (occurrences k ++ occurrences v) ++ occurrencesInEntries es

end

theorem occurrencesInElems_eq (es : List Form) :
    occurrencesInElems es = es.flatMap occurrences := by
  induction es with
  | nil => rfl
  | cons e es ih => rw [occurrencesInElems, ih, List.flatMap_cons]

theorem occurrencesInEntries_eq (es : List (Form × Form)) :
    occurrencesInEntries es = (es.flatMap fun e => [e.1, e.2]).flatMap occurrences := by
  induction es with
  | nil => rfl
  | cons e es ih =>
    obtain ⟨k, v⟩ := e
    rw [occurrencesInEntries, ih]
    simp

theorem occurrences_list (es : List Form) (m : FormMap) :
    occurrences (.list es m) = .list es m :: es.flatMap occurrences := by
  rw [occurrences, occurrencesInElems_eq]

theorem occurrences_vector (es : List Form) (m : FormMap) :
    occurrences (.vector es m) = .vector es m :: es.flatMap occurrences := by
  rw [occurrences, occurrencesInElems_eq]

theorem occurrences_map (es : List (Form × Form)) (m : FormMap) :
    occurrences (.map es m) =
      .map es m :: (es.flatMap fun e => [e.1, e.2]).flatMap occurrences := by
  rw [occurrences, occurrencesInEntries_eq]

theorem occurrences_set (es : List Form) (m : FormMap) :
    occurrences (.set es m) = .set es m :: es.flatMap occurrences := by
  rw [occurrences, occurrencesInElems_eq]

def listMetadata? : Form → Option FormMap
  | .list _ (entry :: m) => some (entry :: m)
  | _ => none

def listMetadata (fs : List Form) : Multiset FormMap :=
  ((fs.flatMap occurrences).filterMap listMetadata? : List FormMap)

@[simp] theorem listMetadata_nil : listMetadata [] = 0 := rfl

theorem listMetadata_append (fs gs : List Form) :
    listMetadata (fs ++ gs) = listMetadata fs + listMetadata gs := by
  unfold listMetadata
  rw [List.flatMap_append, List.filterMap_append, Multiset.coe_add]

theorem listMetadata_cons (f : Form) (fs : List Form) :
    listMetadata (f :: fs) = listMetadata [f] + listMetadata fs :=
  listMetadata_append [f] fs

theorem listMetadata_perm {fs gs : List Form} (h : fs.Perm gs) :
    listMetadata fs = listMetadata gs :=
  Multiset.coe_eq_coe.mpr ((h.flatMap_right occurrences).filterMap listMetadata?)

theorem listMetadata_le {fs gs : List Form} (h : fs.Subperm gs) :
    listMetadata fs ≤ listMetadata gs := by
  obtain ⟨l, hperm, hsub⟩ := subperm_flatMap h occurrences
  exact Multiset.coe_le.mpr ⟨_, hperm.filterMap listMetadata?, hsub.filterMap listMetadata?⟩

theorem listMetadata_singleton {f : Form} {fs : List Form}
    (h : f.occurrences = f :: fs.flatMap occurrences) :
    listMetadata [f] = ((listMetadata? f).toList : Multiset FormMap) + listMetadata fs := by
  unfold listMetadata
  rw [List.flatMap_singleton, h, List.filterMap_cons, Multiset.coe_add]
  cases listMetadata? f <;> rfl

theorem listMetadata_list (es : List Form) (m : FormMap) : listMetadata [.list es m] =
    ((listMetadata? (.list es m)).toList : Multiset FormMap) + listMetadata es :=
  listMetadata_singleton (occurrences_list es m)

theorem listMetadata_vector (es : List Form) (m : FormMap) :
    listMetadata [.vector es m] = listMetadata es :=
  (listMetadata_singleton (occurrences_vector es m)).trans (zero_add _)

theorem listMetadata_map (es : List (Form × Form)) (m : FormMap) :
    listMetadata [.map es m] = listMetadata (es.flatMap fun e => [e.1, e.2]) :=
  (listMetadata_singleton (occurrences_map es m)).trans (zero_add _)

theorem listMetadata_set (es : List Form) (m : FormMap) :
    listMetadata [.set es m] = listMetadata es :=
  (listMetadata_singleton (occurrences_set es m)).trans (zero_add _)

end Form

end LispFront
