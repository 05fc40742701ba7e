import Mathlib.Data.Countable.Basic
import Mathlib.Data.Fintype.EquivFin
import Mathlib.Data.List.NodupEquivFin
import LispFront.Proofs.Analysis.LoopIds

/-!
# Trees with ids to be put in

A family of trees has a tree for all ids that an environment can come with and for all ids that can
be drawn. If renaming leads from each of its trees to the others, then they are one tree in which
the ids are put. What an analysis gives for a family of environments is such a family.
-/

namespace LispFront

open AnalyzerM

variable {ι : Type}

def Equivariant (rename : (Symbol → Symbol) → α → α)
    (x : (Symbol → Symbol) → (ι → Symbol) → α) : Prop :=
  ∀ f ρ ids, rename f (x ρ ids) = x (f ∘ ρ) (f ∘ ids)

theorem exists_origin (ι : Type) [Countable ι] :
    ∃ (code : Symbol ⊕ ι → Symbol) (origin : Symbol → Symbol ⊕ ι),
      Function.LeftInverse origin code := by
  obtain ⟨number, hnumber⟩ := Countable.exists_injective_nat ι
  have hcode : Function.Injective
      (Sum.elim Symbol.mark fun i : ι => Symbol.plain (toString (number i))) := by
    refine Symbol.mark_injective.sumElim (fun i j h => ?_) fun s i => nofun
    exact hnumber (NameSupply.eq_of_toString_eq (congrArg Symbol.name h))
  have : Nonempty (Symbol ⊕ ι) := ⟨.inl default⟩
  exact ⟨_, _, Function.leftInverse_invFun hcode⟩

namespace Equivariant

theorem eq_template {rename : (Symbol → Symbol) → α → α}
    {x : (Symbol → Symbol) → (ι → Symbol) → α} (hx : Equivariant rename x)
    {code : Symbol ⊕ ι → Symbol} {origin : Symbol → Symbol ⊕ ι}
    (horigin : Function.LeftInverse origin code) (ρ : Symbol → Symbol) (ids : ι → Symbol) :
    x ρ ids = rename (fun id => (origin id).elim ρ ids) (x (code ∘ .inl) (code ∘ .inr)) := by
  have hleft : (fun id => (origin id).elim ρ ids) ∘ code ∘ .inl = ρ :=
    funext fun s => congrArg (Sum.elim ρ ids) (horigin (.inl s))
  have hright : (fun id => (origin id).elim ρ ids) ∘ code ∘ .inr = ids :=
    funext fun i => congrArg (Sum.elim ρ ids) (horigin (.inr i))
  rw [hx, hleft, hright]

theorem reindex {κ : Type} {rename : (Symbol → Symbol) → α → α}
    {x : (Symbol → Symbol) → (ι → Symbol) → α} (hx : Equivariant rename x) (e : ι → κ) :
    Equivariant rename fun ρ (ids : κ → Symbol) => x ρ (ids ∘ e) :=
  fun f ρ ids => hx f ρ (ids ∘ e)

end Equivariant

theorem family_of_run [Countable ι] {x : Env → AnalyzerM Node} (hx : NamesIds x)
    {envs : (Symbol → Symbol) → (ι → Symbol) → Env} (henvs : Equivariant Env.mapIds envs)
    {s : Analysis} {names : NameSupply} {ρ : Symbol → Symbol} (ids : ι → Symbol) {n : Node}
    {t : Analysis} (h : (x (envs ρ ids)).run.run (s.withNames names) = (.ok n, t)) :
    ∃ (m : Nat) (nodes : (Symbol → Symbol) → (ι ⊕ Fin m → Symbol) → Node) (u : Analysis),
      Equivariant Node.mapIds nodes ∧ ∀ ρ ids names, (x (envs ρ ids)).run.run (s.withNames names) =
        (.ok (nodes ρ (Sum.elim ids fun i : Fin m => names.loopId i)),
          u.withNames (names.after m)) := by
  obtain ⟨code, origin, horigin⟩ := exists_origin ι
  obtain ⟨m, template, origin', u, -, hrun⟩ :=
    exists_template hx (envs (code ∘ .inl) (code ∘ .inr)) s
  have hall (ρ : Symbol → Symbol) (ids : ι → Symbol) (names : NameSupply) := by
    have hids := hrun (fun id => (origin id).elim ρ ids) names
    rwa [← henvs.eq_template horigin ρ ids] at hids
  cases template with
  | error e =>
    have herror := hall ρ ids names
    rw [h] at herror
    cases herror
  | ok template =>
    refine ⟨m, fun ρ ids => template.mapIds fun id =>
      (origin' id).elim (fun s => (origin s).elim ρ (ids ∘ .inl)) (ids ∘ .inr), u, ?_, hall⟩
    intro f ρ ids
    rw [Node.mapIds_comp]
    congr 1
    funext id
    cases hid : origin' id with
    | inl s => cases hs : origin s <;> simp [hid, hs]
    | inr i => simp [hid]

theorem exists_numbering [Fintype ι] {order : List ι} (hnodup : order.Nodup)
    (hall : ∀ x, x ∈ order) :
    ∃ e : ι ≃ Fin (Fintype.card ι),
      order.map (fun x => (e x : Nat)) = List.range (Fintype.card ι) := by
  classical
  let place : Fin order.length ≃ ι := hnodup.getEquivOfForallMemList order hall
  have hcard : order.length = Fintype.card ι := by
    rw [← Fintype.card_congr place, Fintype.card_fin]
  refine ⟨place.symm.trans (finCongr hcard), List.ext_getElem (by simp [hcard]) fun i hi hi' => ?_⟩
  have hlt : i < order.length := by simpa using hi
  have hplace : place.symm order[i] = ⟨i, hlt⟩ := place.symm_apply_apply ⟨i, hlt⟩
  simp [hplace]

end LispFront
