import LispFront.Analysis.Definition
import LispFront.Analysis.Exception
import LispFront.Proofs.Analysis.Calls

/-!
# What an analysis is made of

The analysis of a form looks at the store, finds faults and analyzes parts of the form. Between a
construct and its parts there may be lists that are not analyzed as forms: clauses, methods, calls
of members. `Recurse.Composes` says of a computation that it is made of nothing else; what is
preserved by the steps and by the analyses of the parts is then preserved by the whole.
-/

namespace LispFront

namespace Form

def elems : Form → List Form
  | .list es _ | .vector es _ | .set es _ => es
  | .map entries _ => entries.flatMap fun e => [e.1, e.2]
  | _ => []

def asList : Form → List Form
  | .list es m => [.list es m]
  | _ => []

/-- `c` is not analyzed as a form where it stands in `f`, but what it holds can be. -/
inductive Opens (f c : Form) : Prop
  | collection : c ∈ f.elems → c.asList = [] → Opens f c
  | clause : f.isCallTo "try" → c ∈ f.elems → TryClauses.isClause c → Opens f c
  | method : f.isCallTo "fn*" → c ∈ f.elems → Opens f c
  | member : f.isCallTo "." → c ∈ f.elems → Opens f c

/-- `x` can be analyzed as a part of `f`. Between them are the given lists, the innermost first. -/
inductive Part : Form → List Form → Form → Prop
  | elem {f x : Form} : x ∈ f.elems → Part f [] x
  | inner {f c x : Form} {between : List Form} : f.Opens c → Part c between x →
      Part f (between ++ c.asList) x
  /-- What the metadata of a form means is a map that stands nowhere in it. -/
  | metadata (f : Form) : Part f [] (.map f.semanticMetadata [])
  | definition {f : Form} {name : Symbol} {m : FormMap} (doc : Option String) (init : Option Form) :
      .symbol name m ∈ f.elems →
      Part f [] (.map (Definition.ofParts name m doc init).metadataExpr [])

inductive Blames : Form → List Form → Form → Prop
  | self (f : Form) : Blames f [] f
  | part {f x : Form} {between : List Form} : f.Part between x → Blames f between x
  /-- The only method of a function, which may be written without a list around it. -/
  | method {f : Form} {params body : List Form} {m : FormMap} :
      .vector params m :: body <:+ f.elems → Blames f [] (.list (.vector params m :: body) [])

def HasPart (f x : Form) : Prop := ∃ between, f.Part between x

theorem hasPart_of_mem {f x : Form} (h : x ∈ f.elems) : f.HasPart x := ⟨[], .elem h⟩

theorem HasPart.inner {f c x : Form} (hc : f.Opens c) (h : c.HasPart x) : f.HasPart x := by
  obtain ⟨between, hx⟩ := h
  exact ⟨_, .inner hc hx⟩

section Calls

variable {f : Form} {op : String} {args : List Form}

theorem Calls.suffix (h : f.Calls op args) : args <:+ f.elems := by
  obtain ⟨m, m', rfl⟩ := h
  exact List.suffix_cons _ _

theorem Calls.mem (h : f.Calls op args) : ∀ x ∈ args, x ∈ f.elems := h.suffix.subset

theorem Calls.hasPart (h : f.Calls op args) : ∀ x ∈ args, f.HasPart x :=
  fun x hx => hasPart_of_mem (h.mem x hx)

end Calls

end Form

namespace Arity

variable {n min max k : Nat}

theorem admits_exactly_iff : (exactly n).admits k ↔ k = n := beq_iff_eq

theorem admits_atLeast_iff : (atLeast n).admits k ↔ n ≤ k := decide_eq_true_iff

theorem admits_between_iff : (between min max).admits k ↔ min ≤ k ∧ k ≤ max := by
  simp only [admits, Bool.and_eq_true, decide_eq_true_eq]

end Arity

namespace AnalysisFault

/-- A fault that compares a number of arguments with the number there should be is found with a call
that has so many arguments, and they are too many or too few. -/
def TrueOf (f : Form) : AnalysisFault → Prop
  | .wrongArity op expected realized =>
    ∃ args, f.Calls op args ∧ args.length = realized ∧ expected.admits realized = false
  | .caseArity count => ∃ args, f.Calls "case*" args ∧ args.length = count ∧ count ≠ 7 ∧ count ≠ 8
  | .recurArity expected realized =>
    ∃ args, f.Calls "recur" args ∧ args.length = realized ∧ realized ≠ expected
  | _ => True

def comparesArity : AnalysisFault → Bool
  | .wrongArity .. | .caseArity .. | .recurArity .. => true
  | _ => false

theorem trueOf_of_comparesArity {fault : AnalysisFault} (h : fault.comparesArity = false)
    (f : Form) : fault.TrueOf f := by
  cases fault with
  | wrongArity | caseArity | recurArity => cases h
  | _ => trivial

end AnalysisFault

open AnalyzerM

/-- Where parts are analyzed by `recurse`, this computation belongs to the analysis of `form`. It
finds faults with forms of which they are true, and only definitions intern vars. -/
inductive Recurse.Composes (recurse : Recurse) (form : Form) :
    {α : Type} → AnalyzerM α → Prop
  | pure {α : Type} (a : α) : Composes recurse form (pure a)
  /-- What follows need only be looked at for values that may come before it. -/
  | bind {α β : Type} {x : AnalyzerM α} {f : α → AnalyzerM β} {q : α → Prop} :
      Composes recurse form x → Yields x q → (∀ a, q a → Composes recurse form (f a)) →
      Composes recurse form (x >>= f)
  | fail {α : Type} {between : List Form} {f : Form} {fault : AnalysisFault} :
      form.Blames between f → fault.TrueOf f →
      Composes recurse form (AnalyzerM.fail fault f : AnalyzerM α)
  | directory : Composes recurse form directory
  | drawLoopId : Composes recurse form drawLoopId
  | intern (ns name : Symbol) (metadata : FormMap) : form.isCallTo "def" →
      Composes recurse form (intern ns name metadata form)
  | part {between : List Form} {part : Form} (env : Env) : form.Part between part →
      Composes recurse form (recurse part env)

namespace Recurse.Composes

variable {recurse : Recurse} {form : Form}

section Rules

variable {x : AnalyzerM α}

theorem andThen {f : α → AnalyzerM β} (hx : recurse.Composes form x)
    (hf : ∀ a, recurse.Composes form (f a)) : recurse.Composes form (x >>= f) :=
  .bind hx yields_true fun a _ => hf a

theorem map {f : α → β} (h : recurse.Composes form x) : recurse.Composes form (f <$> x) := by
  rw [map_eq_pure_bind]
  exact h.andThen fun a => .pure _

theorem mapM {f : α → AnalyzerM β} {l : List α} (h : ∀ a ∈ l, recurse.Composes form (f a)) :
    recurse.Composes form (l.mapM f) := by
  induction l with
  | nil => exact .pure []
  | cons a l ih =>
    rw [List.mapM_cons]
    refine (h a List.mem_cons_self).andThen fun b => ?_
    exact (ih fun c hc => h c (List.mem_cons_of_mem _ hc)).andThen fun bs => .pure _

theorem optionMapM {f : α → AnalyzerM β} {o : Option α}
    (h : ∀ a ∈ o, recurse.Composes form (f a)) : recurse.Composes form (o.mapM f) := by
  cases o with
  | none => exact .pure none
  | some a =>
    rw [Option.mapM_some]
    exact (h a rfl).map

theorem hasPart {part : Form} (h : form.HasPart part) (env : Env) :
    recurse.Composes form (recurse part env) := by
  obtain ⟨between, hpart⟩ := h
  exact .part env hpart

variable {fault : AnalysisFault}

theorem self (h : fault.TrueOf form) :
    recurse.Composes form (AnalyzerM.fail fault form : AnalyzerM α) :=
  .fail (.self form) h

theorem blamed {f : Form} (hpart : form.HasPart f) (h : fault.TrueOf f) :
    recurse.Composes form (AnalyzerM.fail fault f : AnalyzerM α) := by
  obtain ⟨between, hpart⟩ := hpart
  exact .fail (.part hpart) h

theorem check {between : List Form} {f : Form} {v : Except AnalysisFault α}
    (hblames : form.Blames between f)
    (h : ∀ fault, v = .error fault → fault.comparesArity = false) :
    recurse.Composes form (AnalyzerM.check f v) := by
  cases v with
  | ok a => exact .pure a
  | error fault => exact .fail hblames (AnalysisFault.trueOf_of_comparesArity (h fault rfl) f)

end Rules

end Recurse.Composes

def Analysis.withNames (s : Analysis) (names : NameSupply) : Analysis := { s with names }

namespace AnalyzerM

def Fails (x : AnalyzerM α) (p : AnalysisError → Analysis → Prop) : Prop :=
  ∀ s e t, x.run.run s = (.error e, t) → p e t

def Preserves (x : AnalyzerM α) (I : Analysis → Prop) : Prop := ∀ s, I s → I (x.run.run s).2

/-- Whatever `x` ends with, it has drawn names and done nothing else. -/
def OnlyDraws (x : AnalyzerM α) : Prop :=
  ∀ s, ∃ names, (x.run.run s).2 = s.withNames names

end AnalyzerM

namespace Recurse.Composes

variable {recurse : Recurse} {form : Form} {x : AnalyzerM α}

/-- An error is a fault of the form or comes from one of its parts. -/
theorem fails_of {p : AnalysisError → Analysis → Prop} (hx : recurse.Composes form x)
    (hfault : ∀ between f fault t, form.Blames between f → fault.TrueOf f → p (.of fault f) t)
    (hpart : ∀ between part env, form.Part between part → Fails (recurse part env) p) :
    Fails x p := by
  induction hx with
  | pure a | directory | drawLoopId =>
    intro s e t h
    cases h
  | @bind α β x f q _ hq _ ihx ihf =>
    intro s e t h
    rw [run_bind] at h
    rcases hxs : x.run.run s with ⟨e' | a, u⟩
    · rw [hxs] at h
      cases h
      exact ihx s e t hxs
    · rw [hxs] at h
      exact ihf a (hq s a u hxs) u e t h
  | fail hblames htrue =>
    intro s e t h
    cases h
    exact hfault _ _ _ s hblames htrue
  | intern ns name metadata =>
    intro s e t h
    rw [run_intern] at h
    split at h
    · cases h
    · cases h
      exact hfault _ _ _ s (.self form) trivial
  | part env h => exact hpart _ _ env h

theorem preserves {I : Analysis → Prop} (hx : recurse.Composes form x)
    (hintern : form.isCallTo "def" → ∀ ns name metadata,
      (AnalyzerM.intern ns name metadata form).Preserves I)
    (hdraw : AnalyzerM.drawLoopId.Preserves I)
    (hpart : ∀ part env, form.HasPart part → (recurse part env).Preserves I) : x.Preserves I := by
  induction hx with
  | pure a | fail _ _ | directory => exact fun s hs => hs
  | drawLoopId => exact hdraw
  | @bind α β x f q _ hq _ ihx ihf =>
    intro s hs
    have ht := ihx s hs
    rw [run_bind]
    rcases hxs : x.run.run s with ⟨e | a, t⟩
    · rwa [hxs] at ht
    · rw [hxs] at ht
      exact ihf a (hq s a t hxs) t ht
  | intern ns name metadata hdef => exact hintern hdef ns name metadata
  | part env h => exact hpart _ env ⟨_, h⟩

theorem onlyDraws (hx : recurse.Composes form x) (hform : form.isCallTo "def" = false)
    (hpart : ∀ part env, form.HasPart part → (recurse part env).OnlyDraws) : x.OnlyDraws := by
  intro s
  refine hx.preserves (I := fun t => ∃ names, t = s.withNames names) (fun hdef => ?_) ?_ ?_ s
    ⟨s.names, rfl⟩
  · simp [hform] at hdef
  · rintro _ ⟨names, rfl⟩
    exact ⟨names.advance, rfl⟩
  · rintro part env h _ ⟨names, rfl⟩
    exact hpart part env h (s.withNames names)

end Recurse.Composes

end LispFront
