import LispFront.Proofs.Analysis.Yields
import LispFront.Proofs.Directory.Interning
import LispFront.Proofs.NameSupply
import LispFront.Proofs.Tree.Tallies

/-!
# What an analysis writes

`Wrote ns s es t` says that the changes `es`, one after the other, make the store `s` into `t`. An
analysis changes its store in no other way, whether it fails or not; `Writes ns x p` says so of `x`,
and that a result satisfies `p` together with the changes that were made on the way to it.
-/

namespace LispFront

inductive Wrote (ns : Symbol) : Store → List Effect → Store → Prop where
  | nil (s : Store) : Wrote ns s [] s
  | intern {s t : Store} {v : Var} {d : Directory} {es : List Effect} :
      s.directory.intern ns v.id.name v.metadata = .ok (v, d) →
      Wrote ns { s with directory := d } es t → Wrote ns s (.intern v :: es) t
  | draw {s t : Store} {es : List Effect} :
      Wrote ns { s with names := s.names.advance } es t →
      Wrote ns s (.draw (s.names.peek "loop_") :: es) t

namespace Wrote

variable {ns : Symbol} {s t u : Store} {es fs : List Effect}

theorem append (h : Wrote ns s es t) (h' : Wrote ns t fs u) : Wrote ns s (es ++ fs) u := by
  induction h with
  | nil => exact h'
  | intern hv _ ih => exact .intern hv (ih h')
  | draw _ ih => exact .draw (ih h')

theorem interned (h : Wrote ns s es t) :
    s.directory.Interned ns (es.filterMap Effect.var?) t.directory := by
  induction h with
  | nil => exact .nil _
  | intern hv _ ih => exact .cons hv ih
  | draw _ ih => exact ih

theorem drawn (h : Wrote ns s es t) :
    es.filterMap Effect.id? =
      (List.range (es.filterMap Effect.id?).length).map s.names.loopId ∧
    t.names = s.names.after (es.filterMap Effect.id?).length := by
  induction h with
  | nil s => exact ⟨rfl, (s.names.after_zero).symm⟩
  | intern _ _ ih => exact ih
  | @draw s t es _ ih =>
    obtain ⟨hids, hnames⟩ := ih
    change s.names.peek "loop_" :: es.filterMap Effect.id? =
        (List.range ((es.filterMap Effect.id?).length + 1)).map s.names.loopId ∧
      t.names = s.names.after ((es.filterMap Effect.id?).length + 1)
    rw [NameSupply.after_succ]
    refine ⟨?_, hnames⟩
    have hfirst : s.names.loopId 0 = s.names.peek "loop_" := by
      rw [NameSupply.loopId, NameSupply.after_zero]
    have hnext : s.names.loopId ∘ Nat.succ = s.names.advance.loopId :=
      funext fun i => congrArg (NameSupply.peek · "loop_") (s.names.after_succ i)
    rw [List.range_succ_eq_map, List.map_cons, List.map_map, hfirst, hnext, ← hids]

end Wrote

namespace AnalyzerM

def Writes (ns : Symbol) (x : AnalyzerM α) (p : List Effect → α → Prop) : Prop :=
  ∀ s, match x.run.run s with
    | (.ok a, t) => ∃ es, Wrote ns s.toStore es t.toStore ∧ p es a
    | (.error _, t) => ∃ es, Wrote ns s.toStore es t.toStore

variable {ns : Symbol} {x : AnalyzerM α} {p q : List Effect → α → Prop}
  {r : List Effect → β → Prop}

theorem writes_pure {a : α} (h : p [] a) : Writes ns (pure a) p :=
  fun s => ⟨[], .nil s.toStore, h⟩

theorem writes_bind {f : α → AnalyzerM β} (hx : Writes ns x p)
    (hf : ∀ es a, p es a → Writes ns (f a) fun fs b => r (es ++ fs) b) :
    Writes ns (x >>= f) r := by
  intro s
  rw [run_bind]
  have hs := hx s
  rcases hxs : x.run.run s with ⟨e | a, t⟩
  · rw [hxs] at hs
    exact hs
  · rw [hxs] at hs
    obtain ⟨es, hes, ha⟩ := hs
    have ht := hf es a ha t
    dsimp only
    rcases hft : (f a).run.run t with ⟨e | b, u⟩
    · rw [hft] at ht
      obtain ⟨fs, hfs⟩ := ht
      exact ⟨es ++ fs, hes.append hfs⟩
    · rw [hft] at ht
      obtain ⟨fs, hfs, hb⟩ := ht
      exact ⟨es ++ fs, hes.append hfs, hb⟩

theorem writes_map {f : α → β} (h : Writes ns x fun es a => r es (f a)) :
    Writes ns (f <$> x) r := by
  rw [map_eq_pure_bind]
  refine writes_bind h fun es a ha => writes_pure ?_
  rwa [List.append_nil]

theorem writes_mono (h : Writes ns x p) (hpq : ∀ es a, p es a → q es a) : Writes ns x q := by
  rw [← bind_pure x]
  refine writes_bind h fun es a ha => writes_pure ?_
  rw [List.append_nil]
  exact hpq es a ha

theorem writes_fail (fault : AnalysisFault) (form : Form) :
    Writes ns (AnalyzerM.fail fault form) p :=
  fun s => ⟨[], .nil s.toStore⟩

theorem writes_within (form : Form) (h : Writes ns x p) : Writes ns (within form x) p := by
  intro s
  rw [run_within]
  have hs := h s
  rcases hxs : x.run.run s with ⟨e | a, t⟩
  · rw [hxs] at hs
    exact hs
  · rw [hxs] at hs
    exact hs

theorem writes_check (form : Form) (v : Except AnalysisFault α) :
    Writes ns (check form v) fun es a => es = [] ∧ v = .ok a := by
  cases v with
  | ok a => exact writes_pure ⟨rfl, rfl⟩
  | error fault => exact writes_fail fault form

theorem writes_directory : Writes ns directory fun es _ => es = [] :=
  fun s => ⟨[], .nil s.toStore, rfl⟩

theorem writes_drawLoopId : Writes ns drawLoopId fun es id => es = [.draw id] :=
  fun _ => ⟨_, .draw (.nil _), rfl⟩

theorem writes_intern (name : Symbol) (metadata : FormMap) (form : Form) :
    Writes ns (intern ns name metadata form) fun es v => es = [.intern v] := by
  intro s
  rw [run_intern]
  rcases h : s.directory.intern ns name metadata with e | ⟨v, d⟩
  · exact ⟨[], .nil s.toStore⟩
  · obtain ⟨n, -, rfl, -⟩ := Directory.exists_put_of_intern h
    exact ⟨_, .intern h (.nil _), rfl⟩

/-- `x` writes to the directory by interning vars in `ns` and in no other way, and a result
satisfies `p` together with the vars that were interned on the way to it. -/
def Interns (ns : Symbol) (x : AnalyzerM α) (p : List Var → α → Prop) : Prop :=
  ∀ s, match x.run.run s with
    | (.ok a, t) => ∃ vs, s.directory.Interned ns vs t.directory ∧ p vs a
    | (.error _, t) => ∃ vs, s.directory.Interned ns vs t.directory

theorem interns_of_writes {p : List Var → α → Prop}
    (h : Writes ns x fun es a => p (es.filterMap Effect.var?) a) : Interns ns x p := by
  intro s
  have hs := h s
  rcases hxs : x.run.run s with ⟨e | a, t⟩
  · rw [hxs] at hs
    obtain ⟨es, hes⟩ := hs
    exact ⟨_, hes.interned⟩
  · rw [hxs] at hs
    obtain ⟨es, hes, ha⟩ := hs
    exact ⟨_, hes.interned, ha⟩

end AnalyzerM

end LispFront
