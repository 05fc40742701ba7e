import LispFront.Proofs.Analysis.Relational.Correspondence
import LispFront.Proofs.Analysis.Yields

/-!
# Rules for two analyses side by side

`C.Relates x y p` says that from corresponding stores `x` and `y` end alike: both give results that
`p` relates, or both fail with corresponding errors, and the stores correspond again; or `x` fails
with an error that escapes. The rules follow the operations that analyses are put together with.
-/

namespace LispFront.Correspondence

open AnalyzerM
open List (Forall₂)

variable (C : Correspondence)

inductive Outcomes (p : α → β → Prop) :
    Except AnalysisError α × Analysis → Except AnalysisError β × Analysis → Prop
  | ok {a : α} {b : β} {s t : Analysis} : p a b → C.store s t → Outcomes p (.ok a, s) (.ok b, t)
  | error {e e' : AnalysisError} {s t : Analysis} :
      C.error e e' → C.store s t → Outcomes p (.error e, s) (.error e', t)
  | escape {e : AnalysisError} {s : Analysis} {r : Except AnalysisError β × Analysis} :
      C.escapes e → Outcomes p (.error e, s) r

def Relates (x : AnalyzerM α) (y : AnalyzerM β) (p : α → β → Prop) : Prop :=
  ∀ s t, C.store s t → C.Outcomes p (x.run.run s) (y.run.run t)

/-- What the parts of a construct give in the two analyses corresponds. -/
def Recurses (recurse recurse' : Recurse) : Prop :=
  ∀ f f' e e', C.form f f' → e.Like C e' → C.Relates (recurse f e) (recurse' f' e') C.node

/-- Nodes for these forms and not for anything that they were expanded to. -/
inductive Built (f f' : Form) : Node → Node → Prop
  | of {op op' : Op} {e e' : Env} :
      op.Like C op' → e.Like C e' → Built f f' (.of op f e) (.of op' f' e')

inductive Checked (p : α → β → Prop) : Except AnalysisFault α → Except AnalysisFault β → Prop
  | ok {a : α} {b : β} : p a b → Checked p (.ok a) (.ok b)
  | error {x x' : AnalysisFault} : x.Like C.form x' → Checked p (.error x) (.error x')

variable {C} {x : AnalyzerM α} {y : AnalyzerM β} {p q : α → β → Prop} {r : γ → δ → Prop}

theorem Built.node (hC : C.Lawful) {f f' : Form} {n n' : Node} (h : C.Built f f' n n')
    (hf : C.form f f') : C.node n n' := by
  obtain ⟨hop, he⟩ := h
  exact hC.node hop hf he

theorem relates_pure {a : α} {b : β} (h : p a b) : C.Relates (pure a) (pure b) p :=
  fun _ _ hst => .ok h hst

theorem relates_bind {f : α → AnalyzerM γ} {g : β → AnalyzerM δ} (hx : C.Relates x y p)
    (hf : ∀ a b, p a b → C.Relates (f a) (g b) r) : C.Relates (x >>= f) (y >>= g) r := by
  intro s t hst
  have h := hx s t hst
  rw [run_bind, run_bind]
  generalize x.run.run s = xs at h ⊢
  generalize y.run.run t = yt at h ⊢
  cases h with
  | ok hab hst' => exact hf _ _ hab _ _ hst'
  | error he hst' => exact .error he hst'
  | escape he => exact .escape he

theorem relates_mono (h : C.Relates x y p) (hpq : ∀ a b, p a b → q a b) : C.Relates x y q := by
  rw [← bind_pure x, ← bind_pure y]
  exact relates_bind h fun a b hab => relates_pure (hpq a b hab)

theorem relates_map {f : α → γ} {g : β → δ} (h : C.Relates x y fun a b => r (f a) (g b)) :
    C.Relates (f <$> x) (g <$> y) r := by
  rw [map_eq_pure_bind, map_eq_pure_bind]
  exact relates_bind h fun a b hab => relates_pure hab

theorem relates_throw {e e' : AnalysisError} (h : C.error e e') :
    C.Relates (throw e : AnalyzerM α) (throw e') p :=
  fun _ _ hst => .error h hst

theorem relates_escape {e : AnalysisError} (h : C.escapes e) : C.Relates (throw e) y p :=
  fun _ _ _ => .escape h

theorem relates_fail (hC : C.Lawful) {fault fault' : AnalysisFault} {form form' : Form}
    (h : fault.Like C.form fault') (hf : C.form form form') :
    C.Relates (AnalyzerM.fail fault form) (AnalyzerM.fail fault' form') p :=
  relates_throw (hC.error h hf)

theorem relates_fail_same (hC : C.Lawful) {fault : AnalysisFault} {form form' : Form}
    (hf : C.form form form') :
    C.Relates (AnalyzerM.fail fault form) (AnalyzerM.fail fault form') p :=
  relates_fail hC (.same fault) hf

theorem relates_wrongArity (hC : C.Lawful) {op : String} {expected : Arity} {form form' : Form}
    {args args' : List Form} (hf : C.form form form') (hargs : Forall₂ C.form args args') :
    C.Relates (wrongArity op expected form args) (wrongArity op expected form' args') p := by
  unfold wrongArity
  rw [hargs.length_eq]
  exact relates_fail_same hC hf

theorem relates_check (hC : C.Lawful) {v : Except AnalysisFault α} {v' : Except AnalysisFault β}
    {form form' : Form} (h : C.Checked p v v') (hf : C.form form form') :
    C.Relates (check form v) (check form' v') p := by
  cases h with
  | ok hab => exact relates_pure hab
  | error hfault => exact relates_fail hC hfault hf

theorem Checked.refl {p : α → α → Prop} (hp : ∀ a, p a a) (v : Except AnalysisFault α) :
    C.Checked p v v := by
  cases v with
  | ok a => exact .ok (hp a)
  | error fault => exact .error (.same fault)

theorem relates_within (hC : C.Lawful) {form form' : Form} (h : C.Relates x y p)
    (hf : C.form form form') : C.Relates (within form x) (within form' y) p := by
  intro s t hst
  have h := h s t hst
  rw [run_within, run_within]
  generalize x.run.run s = xs at h ⊢
  generalize y.run.run t = yt at h ⊢
  cases h with
  | ok hab hst' => exact .ok hab hst'
  | error he hst' => exact .error (hC.within he hf) hst'
  | escape he => exact .escape (hC.escapes_within form he)

theorem relates_directory :
    C.Relates directory directory fun d d' =>
      ∃ s t, C.store s t ∧ d = s.view ∧ d' = t.view :=
  fun s t hst => .ok ⟨s, t, hst, rfl, rfl⟩ hst

theorem relates_drawLoopId (hC : C.Lawful) : C.Relates drawLoopId drawLoopId C.loopId :=
  fun _ _ hst => .ok (hC.loopId hst) (hC.advance hst)

theorem relates_intern (hC : C.Lawful) (ns name : Symbol) {s : Symbol} {m m' : FormMap}
    {form form' : Form} (hm : C.form (.symbol s m) (.symbol s m')) (hf : C.form form form') :
    C.Relates (intern ns name m form) (intern ns name m' form') C.var := by
  intro s t hst
  have h := hC.intern ns name hst hm
  rw [run_intern, run_intern]
  generalize s.directory.intern ns name m = r at h ⊢
  generalize t.directory.intern ns name m' = r' at h ⊢
  cases h with
  | ok hv hst' => exact .ok hv hst'
  | error e => exact .error (hC.error (.same _) hf) hst
  | escape r he => exact .escape (he form)

theorem relates_mapM {f : α → AnalyzerM γ} {g : β → AnalyzerM δ} {as : List α} {bs : List β}
    (h : Forall₂ p as bs) (hf : ∀ a b, p a b → C.Relates (f a) (g b) r) :
    C.Relates (as.mapM f) (bs.mapM g) (Forall₂ r) := by
  induction h with
  | nil => exact relates_pure .nil
  | cons hab _ ih =>
    rw [List.mapM_cons, List.mapM_cons]
    refine relates_bind (hf _ _ hab) fun c d hcd => ?_
    refine relates_bind ih fun cs ds hs => ?_
    exact relates_pure (.cons hcd hs)

theorem relates_option {f : α → AnalyzerM γ} {g : β → AnalyzerM δ} {o : Option α} {o' : Option β}
    (h : Option.Rel p o o') (hf : ∀ a b, p a b → C.Relates (f a) (g b) r) :
    C.Relates (o.mapM f) (o'.mapM g) (Option.Rel r) := by
  cases h with
  | none => exact relates_pure .none
  | some hab =>
    rw [Option.mapM_some, Option.mapM_some]
    exact relates_map (relates_mono (hf _ _ hab) fun c d hcd => .some hcd)

end LispFront.Correspondence
