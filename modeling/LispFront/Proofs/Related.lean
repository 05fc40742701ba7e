import LispFront.Form.Basic
import LispFront.Sorted
import Mathlib.Data.List.Forall2

/-!
# Lists and forms related part by part

Operations that look at the elements of a list take related lists to related ones, as long as what
they see of related elements is the same. Forms are related by their parts if they are of one kind.
-/

namespace LispFront

open List (Forall₂)

variable {α : Type u} {β : Type v} {R : α → β → Prop} {as : List α} {bs : List β}

theorem related_option_refl {R : α → α → Prop} (h : ∀ a, R a a) (o : Option α) :
    Option.Rel R o o := by
  cases o with
  | none => exact .none
  | some a => exact .some (h a)

theorem related_option_mono {S : α → β → Prop} {o : Option α} {o' : Option β}
    (h : Option.Rel R o o') (hRS : ∀ a b, R a b → S a b) : Option.Rel S o o' := by
  cases h with
  | none => exact .none
  | some hab => exact .some (hRS _ _ hab)

theorem exists_of_related_option {o : Option α} {o' : Option β} (h : Option.Rel R o o') {a : α}
    (ha : a ∈ o) : ∃ b, R a b := by
  cases h with
  | none => cases ha
  | some hab =>
    cases ha
    exact ⟨_, hab⟩

section Options

variable {o : Option α} {o' : Option β} (h : Option.Rel R o o')
include h

theorem related_bind {γ : Type w} {δ : Type x} {S : γ → δ → Prop} {f : α → Option γ}
    {g : β → Option δ} (hfg : ∀ a b, R a b → Option.Rel S (f a) (g b)) :
    Option.Rel S (o.bind f) (o'.bind g) := by
  cases h with
  | none => exact .none
  | some hab => exact hfg _ _ hab

theorem bind_eq_of_related {γ : Type w} {f : α → Option γ} {g : β → Option γ}
    (hfg : ∀ a b, R a b → f a = g b) : o.bind f = o'.bind g := by
  cases h with
  | none => rfl
  | some hab => exact hfg _ _ hab

theorem map_eq_of_related {γ : Type w} {f : α → γ} {g : β → γ} (hfg : ∀ a b, R a b → f a = g b) :
    o.map f = o'.map g := by
  rw [Option.map_eq_bind, Option.map_eq_bind]
  exact bind_eq_of_related h fun a b hab => congrArg some (hfg a b hab)

theorem isSome_eq_of_related : o.isSome = o'.isSome := by
  cases h with
  | none => rfl
  | some _ => rfl

end Options

theorem related_getElem? (h : Forall₂ R as bs) (i : Nat) : Option.Rel R as[i]? bs[i]? := by
  induction h generalizing i with
  | nil => exact .none
  | cons hab _ ih =>
    cases i with
    | zero => exact .some hab
    | succ i => exact ih i

theorem related_head? (h : Forall₂ R as bs) : Option.Rel R as.head? bs.head? := by
  cases h with
  | nil => exact .none
  | cons hab _ => exact .some hab

theorem related_getLast? (h : Forall₂ R as bs) : Option.Rel R as.getLast? bs.getLast? := by
  rw [List.getLast?_eq_head?_reverse, List.getLast?_eq_head?_reverse]
  exact related_head? (List.rel_reverse h)

theorem related_dropLast (h : Forall₂ R as bs) : Forall₂ R as.dropLast bs.dropLast := by
  rw [List.dropLast_eq_take, List.dropLast_eq_take, h.length_eq]
  exact List.forall₂_take _ h

theorem related_isEmpty (h : Forall₂ R as bs) : as.isEmpty = bs.isEmpty := by
  cases h with
  | nil => rfl
  | cons _ _ => rfl

theorem related_zip {γ : Type w} {δ : Type x} {S : γ → δ → Prop} {cs : List γ} {ds : List δ}
    (h : Forall₂ R as bs) (h' : Forall₂ S cs ds) :
    Forall₂ (fun p q => R p.1 q.1 ∧ S p.2 q.2) (as.zip cs) (bs.zip ds) := by
  induction h generalizing cs ds with
  | nil => exact .nil
  | cons hab _ ih =>
    cases h' with
    | nil => exact .nil
    | cons hcd hs => exact .cons ⟨hab, hcd⟩ (ih hs)

theorem exists_related (h : Forall₂ R as bs) : ∀ a ∈ as, ∃ b ∈ bs, R a b := by
  induction h with
  | nil => exact nofun
  | @cons a b as bs hab _ ih =>
    refine List.forall_mem_cons.mpr ⟨⟨b, List.mem_cons_self, hab⟩, fun c hc => ?_⟩
    obtain ⟨d, hd, hcd⟩ := ih c hc
    exact ⟨d, List.mem_cons_of_mem b hd, hcd⟩

theorem related_of_mem {S : α → β → Prop} (h : Forall₂ R as bs)
    (hS : ∀ a ∈ as, ∀ b ∈ bs, R a b → S a b) : Forall₂ S as bs := by
  induction h with
  | nil => exact .nil
  | cons hab _ ih =>
    refine .cons (hS _ List.mem_cons_self _ List.mem_cons_self hab) (ih fun a ha b hb => ?_)
    exact hS a (List.mem_cons_of_mem _ ha) b (List.mem_cons_of_mem _ hb)

section While

variable {p : α → Bool} {q : β → Bool} (hpq : ∀ a b, R a b → p a = q b)
include hpq

theorem related_takeWhile (h : Forall₂ R as bs) : Forall₂ R (as.takeWhile p) (bs.takeWhile q) := by
  induction h with
  | nil => exact .nil
  | cons hab _ ih =>
    rw [List.takeWhile_cons, List.takeWhile_cons, hpq _ _ hab]
    split
    · exact .cons hab ih
    · exact .nil

theorem related_dropWhile (h : Forall₂ R as bs) : Forall₂ R (as.dropWhile p) (bs.dropWhile q) := by
  induction h with
  | nil => exact .nil
  | cons hab hs ih =>
    rw [List.dropWhile_cons, List.dropWhile_cons, hpq _ _ hab]
    split
    · exact ih
    · exact .cons hab hs

theorem related_any (h : Forall₂ R as bs) : as.any p = bs.any q := by
  induction h with
  | nil => rfl
  | cons hab _ ih => rw [List.any_cons, List.any_cons, hpq _ _ hab, ih]

end While

namespace Sorted

section Probe

variable {probe : α → Ordering} {probe' : β → Ordering}
  (hprobe : ∀ a b, R a b → probe a = probe' b)
include hprobe

theorem related_find? (h : Forall₂ R as bs) :
    Option.Rel R (find? probe as) (find? probe' bs) := by
  induction h with
  | nil => exact .none
  | cons hab _ ih =>
    unfold find?
    rw [hprobe _ _ hab]
    split
    · exact .none
    · exact .some hab
    · exact ih

end Probe

theorem related_insert {cmp : α → α → Ordering} {cmp' : β → β → Ordering}
    (hcmp : ∀ a a' b b', R a b → R a' b' → cmp a a' = cmp' b b') {a : α} {b : β} (hab : R a b)
    (h : Forall₂ R as bs) : Forall₂ R (insert cmp a as) (insert cmp' b bs) := by
  induction h with
  | nil => exact .cons hab .nil
  | cons hab' hs ih =>
    unfold insert
    rw [hcmp _ _ _ _ hab hab']
    split
    · exact .cons hab (.cons hab' hs)
    · exact .cons hab hs
    · exact .cons hab' ih

end Sorted

/-- The forms are equal but for metadata and for parts, which are related by `R`. -/
inductive Form.Matches (R : Form → Form → Prop) : Form → Form → Prop
  | nil : Matches R .nil .nil
  | bool (b : Bool) : Matches R (.bool b) (.bool b)
  | number (n : Int64) : Matches R (.number n) (.number n)
  | string (s : String) : Matches R (.string s) (.string s)
  | char (c : Char) : Matches R (.char c) (.char c)
  | keyword (k : Keyword) : Matches R (.keyword k) (.keyword k)
  | symbol (s : Symbol) (m m' : FormMap) : Matches R (.symbol s m) (.symbol s m')
  | regex (source : String) : Matches R (.regex source) (.regex source)
  | list {es es' : List Form} (m m' : FormMap) :
      Forall₂ R es es' → Matches R (.list es m) (.list es' m')
  | vector {es es' : List Form} (m m' : FormMap) :
      Forall₂ R es es' → Matches R (.vector es m) (.vector es' m')
  | map {es es' : FormMap} (m m' : FormMap) :
      Forall₂ (fun e e' => R e.1 e'.1 ∧ R e.2 e'.2) es es' → Matches R (.map es m) (.map es' m')
  | set {es es' : FormSet} (m m' : FormMap) :
      Forall₂ R es es' → Matches R (.set es m) (.set es' m')
  | var (v : VarName) : Matches R (.var v) (.var v)

end LispFront
