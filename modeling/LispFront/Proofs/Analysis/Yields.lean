import LispFront.Analysis.Basic
import LispFront.Proofs.Directory.Lookup
import Mathlib.Data.List.Forall2

/-!
# What an analysis can result in

`Yields x p` says that whatever `x` gives, from whatever store, satisfies `p`; it says nothing of a
failure. The rules follow the operations that analyses are put together with.
-/

namespace LispFront.AnalyzerM

def Yields (x : AnalyzerM α) (p : α → Prop) : Prop :=
  ∀ s a t, x.run.run s = (.ok a, t) → p a

variable {x : AnalyzerM α} {p r : α → Prop} {q : β → Prop}

theorem run_within (form : Form) (x : AnalyzerM α) (s : Analysis) :
    (within form x).run.run s =
      match x.run.run s with
      | (.ok a, t) => (.ok a, t)
      | (.error e, t) => (.error (e.within form), t) := by
  rw [within, ExceptT.run_adapt, StateT.run_map]
  rcases x.run.run s with ⟨e | a, t⟩
  · rfl
  · rfl

theorem run_within_eq_ok {form : Form} {s t : Analysis} {a : α} :
    (within form x).run.run s = (.ok a, t) ↔ x.run.run s = (.ok a, t) := by
  rw [run_within]
  rcases x.run.run s with ⟨e | b, u⟩
  · exact ⟨nofun, nofun⟩
  · exact Iff.rfl

theorem run_intern (ns name : Symbol) (metadata : FormMap) (form : Form) (s : Analysis) :
    (intern ns name metadata form).run.run s =
      match s.directory.intern ns name metadata with
      | .ok (v, directory) => (.ok v, { s with directory, view := directory })
      | .error e => (.error (.of (.directory e) form), s) := by
  have hget : (get : AnalyzerM Analysis).run.run s = (.ok s, s) := rfl
  unfold intern
  rw [run_bind, hget]
  dsimp only
  rw [Directory.tryIntern_eq_intern]
  rcases s.directory.intern ns name metadata with e | ⟨v, d⟩
  · rfl
  · rfl

theorem run_nested (limit : Nat) (form : Form) (x : AnalyzerM α) (s : Analysis) :
    (nested limit form x).run.run s =
      if limit ≤ s.depth then (.error (.of (.tooDeep limit) form), s)
      else ((x.run.run s.enter).1, (x.run.run s.enter).2.leave) := by
  unfold nested
  rw [run_bind]
  change (ExceptT.run (if limit ≤ s.depth then fail (.tooDeep limit) form else _ :
    AnalyzerM α)).run s = _
  split
  · rfl
  · change (ExceptT.run (do
      let outcome ← ExceptT.lift x.run
      modify (·.leave)
      MonadExcept.ofExcept outcome : AnalyzerM α)).run s.enter = _
    have hlift : (ExceptT.lift x.run : AnalyzerM _).run.run s.enter =
        (.ok (x.run.run s.enter).1, (x.run.run s.enter).2) := rfl
    rw [run_bind, hlift]
    rcases x.run.run s.enter with ⟨e | a, t⟩
    · rfl
    · rfl

theorem error_of_within {form : Form} {s t : Analysis} {e : AnalysisError}
    (h : (within form x).run.run s = (.error e, t)) :
    ∃ e', x.run.run s = (.error e', t) ∧ e = e'.within form := by
  rw [run_within] at h
  rcases hx : x.run.run s with ⟨e' | c, u⟩
  · rw [hx] at h
    cases h
    exact ⟨e', rfl, rfl⟩
  · rw [hx] at h
    cases h

theorem error_of_bind {f : α → AnalyzerM β} {s t : Analysis} {e : AnalysisError}
    (h : (x >>= f).run.run s = (.error e, t)) :
    x.run.run s = (.error e, t) ∨
      ∃ a u, x.run.run s = (.ok a, u) ∧ (f a).run.run u = (.error e, t) := by
  rw [run_bind] at h
  rcases hx : x.run.run s with ⟨e' | a, u⟩
  · rw [hx] at h
    cases h
    exact .inl rfl
  · rw [hx] at h
    exact .inr ⟨a, u, rfl, h⟩

theorem error_of_mapM {f : α → AnalyzerM β} {l : List α} {s t : Analysis} {e : AnalysisError}
    (h : (l.mapM f).run.run s = (.error e, t)) :
    ∃ before a after bs u, l = before ++ a :: after ∧ (before.mapM f).run.run s = (.ok bs, u) ∧
      (f a).run.run u = (.error e, t) := by
  induction l generalizing s with
  | nil => cases h
  | cons a l ih =>
    rw [List.mapM_cons] at h
    rcases error_of_bind h with ha | ⟨b, u, hb, hrest⟩
    · exact ⟨[], a, l, [], s, rfl, rfl, ha⟩
    · rcases error_of_bind hrest with hl | ⟨bs, v, -, hpure⟩
      · obtain ⟨before, a', after, bs, v, rfl, hbefore, ha'⟩ := ih hl
        refine ⟨a :: before, a', after, b :: bs, v, rfl, ?_, ha'⟩
        rw [List.mapM_cons, run_bind, hb]
        dsimp only
        rw [run_bind, hbefore]
        rfl
      · cases hpure

theorem yields_pure {a : α} (h : p a) : Yields (pure a) p := by
  intro s b t hb
  cases hb
  exact h

theorem yields_bind {f : α → AnalyzerM β} (hx : Yields x p) (hf : ∀ a, p a → Yields (f a) q) :
    Yields (x >>= f) q := by
  intro s b t h
  rw [run_bind] at h
  rcases hxs : x.run.run s with ⟨v | a, u⟩
  · rw [hxs] at h
    cases h
  · rw [hxs] at h
    exact hf a (hx s a u hxs) u b t h

theorem yields_map {f : α → β} (h : Yields x fun a => q (f a)) : Yields (f <$> x) q := by
  rw [map_eq_pure_bind]
  exact yields_bind h fun a ha => yields_pure ha

theorem yields_mono (h : Yields x p) (hpr : ∀ a, p a → r a) : Yields x r :=
  fun s a t hs => hpr a (h s a t hs)

theorem yields_and (hp : Yields x p) (hr : Yields x r) : Yields x fun a => p a ∧ r a :=
  fun s a t hs => ⟨hp s a t hs, hr s a t hs⟩

theorem yields_true : Yields x fun _ => True := fun _ _ _ _ => trivial

theorem yields_fail (fault : AnalysisFault) (form : Form) : Yields (fail fault form) p := by
  intro s a t h
  cases h

theorem yields_within (form : Form) (h : Yields x p) : Yields (within form x) p := by
  intro s a t hs
  rw [run_within] at hs
  rcases hx : x.run.run s with ⟨e | b, u⟩
  · rw [hx] at hs
    cases hs
  · rw [hx] at hs
    exact h s a t (hx.trans hs)

theorem yields_check (form : Form) (v : Except AnalysisFault α) :
    Yields (check form v) fun a => v = .ok a := by
  cases v with
  | ok a => exact yields_pure rfl
  | error fault => exact yields_fail fault form

theorem yields_mapM {f : α → AnalyzerM β} {l : List α} (h : ∀ a ∈ l, Yields (f a) q) :
    Yields (l.mapM f) fun bs => ∀ b ∈ bs, q b := by
  induction l with
  | nil => exact yields_pure (by simp)
  | cons a l ih =>
    rw [List.mapM_cons]
    refine yields_bind (h a List.mem_cons_self) fun b hb => ?_
    refine yields_bind (ih fun c hc => h c (List.mem_cons_of_mem _ hc)) fun bs hbs => ?_
    exact yields_pure (List.forall_mem_cons.mpr ⟨hb, hbs⟩)

theorem yields_mapM_forall₂ {f : α → AnalyzerM β} {R : α → β → Prop} (l : List α)
    (h : ∀ a, Yields (f a) (R a)) : Yields (l.mapM f) (List.Forall₂ R l) := by
  induction l with
  | nil => exact yields_pure .nil
  | cons a l ih =>
    rw [List.mapM_cons]
    refine yields_bind (h a) fun b hb => ?_
    refine yields_bind ih fun bs hbs => ?_
    exact yields_pure (.cons hb hbs)

theorem yields_mapM_length {f : α → AnalyzerM β} (l : List α) :
    Yields (l.mapM f) fun bs => bs.length = l.length :=
  yields_mono (yields_mapM_forall₂ (R := fun _ _ => True) l fun _ => yields_true) fun _ hbs =>
    hbs.length_eq.symm

theorem yields_optionMapM {f : α → AnalyzerM β} {o : Option α} {q : β → Prop}
    (h : ∀ a, Yields (f a) q) : Yields (o.mapM f) fun b => ∀ x ∈ b, q x := by
  cases o with
  | none => exact yields_pure (by simp)
  | some a =>
    rw [Option.mapM_some]
    refine yields_map (yields_mono (h a) fun b hb => ?_)
    simpa using hb

end LispFront.AnalyzerM
