import LispFront.Proofs.Sorted
import LispFront.Proofs.Symbol
import LispFront.Tree.Env

/-!
# Looking up in an environment

Bringing a binding into scope changes the locals only, and of those only the one of its name.
-/

namespace LispFront.Env

open Std

variable (e : Env)

theorem local?_bind (b : Binding) (s : Symbol) :
    (e.bind b).local? s = if s = b.name then some b else e.local? s := by
  have h := Sorted.find?_insert Symbol.cmp Binding.name s b e.locals
  have hname : s.cmp b.name = .eq ↔ s = b.name := LawfulEqCmp.compare_eq_iff_eq
  by_cases hs : s = b.name
  · rw [if_pos (hname.mpr hs)] at h
    rw [if_pos hs]
    exact h
  · rw [if_neg fun hc => hs (hname.mp hc)] at h
    rw [if_neg hs]
    exact h

theorem bindMany_eq (bs : List Binding) :
    e.bindMany bs = { e with locals := (e.bindMany bs).locals } := by
  induction bs generalizing e with
  | nil =>
    cases e
    rfl
  | cons b bs ih => exact ih (e.bind b)

@[simp] theorem bindMany_context (bs : List Binding) : (e.bindMany bs).context = e.context := by
  rw [bindMany_eq]

@[simp] theorem bindMany_inTry (bs : List Binding) : (e.bindMany bs).inTry = e.inTry := by
  rw [bindMany_eq]

@[simp] theorem bindMany_loopId (bs : List Binding) : (e.bindMany bs).loopId = e.loopId := by
  rw [bindMany_eq]

@[simp] theorem bindMany_loopArity (bs : List Binding) : (e.bindMany bs).loopArity = e.loopArity := by
  rw [bindMany_eq]

@[simp] theorem bindMany_ns (bs : List Binding) : (e.bindMany bs).ns = e.ns := by
  rw [bindMany_eq]

theorem withContext_context : e.withContext e.context = e := by
  cases e
  rfl

theorem bindMany_withContext (bs : List Binding) (c : Context) :
    (e.withContext c).bindMany bs = (e.bindMany bs).withContext c := by
  induction bs generalizing e with
  | nil => rfl
  | cons b bs ih => exact ih (e.bind b)

theorem bind_comm {b c : Binding} (h : b.name ≠ c.name) :
    (e.bind b).bind c = (e.bind c).bind b := by
  have hcmp : c.name.cmp b.name ≠ .eq := fun heq => h (LawfulEqCmp.eq_of_compare heq).symm
  exact congrArg (fun locals => { e with locals })
    (Sorted.insert_comm Symbol.cmp Binding.name hcmp e.locals)

theorem bindMany_perm {bs cs : List Binding} (h : bs.Perm cs)
    (hnames : ∀ b ∈ bs, ∀ c ∈ bs, b.name = c.name → b = c) : e.bindMany bs = e.bindMany cs := by
  refine h.foldl_eq' (fun b hb c hc e => ?_) e
  by_cases hbc : b = c
  · rw [hbc]
  · exact bind_comm e fun hname => hbc (hnames b hb c hc hname)

end LispFront.Env
