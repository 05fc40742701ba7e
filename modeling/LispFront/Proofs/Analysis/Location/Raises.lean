import LispFront.Proofs.Analysis.Parts.Analyzer

/-!
# How an error comes out of an analysis

An error arises as the fault of a form, at the depth limit or in the expander, and comes out of
every analysis that is under way. A list that is analyzed as a form gives it a location if it has
none. The lists that are worked through inside a form (clauses, methods, calls of members) do not,
and neither does a call whose expansion failed.
-/

namespace LispFront

structure Enclosure where
  form : Form
  /-- Whether an error that comes out of it is located at it if it has no location. -/
  locates : Bool

namespace Enclosure

def location? (c : Enclosure) : Option SourceLocation := SourceLocation.of? c.form

def given? (c : Enclosure) : Option SourceLocation := if c.locates then c.location? else none

def nearest? (enclosing : List Enclosure) : Option SourceLocation :=
  enclosing.findSome? (·.location?)

def between (lists : List Form) : List Enclosure := lists.map (⟨·, false⟩)

theorem nearest?_eq {enclosing : List Enclosure}
    (h : ∀ c ∈ enclosing, c.locates = false → c.location? = none) :
    enclosing.findSome? (·.given?) = nearest? enclosing := by
  induction enclosing with
  | nil => rfl
  | cons c cs ih =>
    obtain ⟨hc, hcs⟩ := List.forall_mem_cons.mp h
    have hgiven : c.given? = c.location? := by
      cases hlocates : c.locates with
      | true => simp [given?, hlocates]
      | false => simp [given?, hlocates, hc hlocates]
    simp only [nearest?, List.findSome?_cons] at ih ⊢
    rw [hgiven, ih hcs]

theorem given?_between (lists : List Form) : (between lists).findSome? (·.given?) = none := by
  simp [between, given?]

end Enclosure

def Form.enclosure (locates : Bool) (f : Form) : List Enclosure :=
  if f.isCall then [⟨f, locates⟩] else []

theorem Form.given?_enclosure (f : Form) :
    (f.enclosure true).findSome? (·.given?) =
      if f.isCall then SourceLocation.of? f else none := by
  unfold Form.enclosure
  split
  · simp [Enclosure.given?, Enclosure.location?]
  · rfl

theorem AnalysisError.leaving_eq (form : Form) (e : AnalysisError) :
    e.leaving form =
      { e with location := e.location.or ((form.enclosure true).findSome? (·.given?)) } := by
  rw [Form.given?_enclosure]
  unfold leaving
  split
  · rfl
  · rw [Option.or_none]

namespace Analyzer

def FailsWith (a : Analyzer) (levels : Nat) (form : Form) (env : Env) (e : AnalysisError)
    (t : Store) : Prop :=
  ∃ s u : Analysis, s.depth + levels = a.maxDepth ∧
    (a.analyzeForm (levels + 1) form env).run.run s = (.error e, u) ∧ u.toStore = t

/-- How an analysis that is left with the store `t` comes by its error: the error with which it all
began, the lists that enclose its origin, the innermost first, and the error in the end. -/
inductive Raises (a : Analyzer) (t : Store) :
    Nat → Form → Env → AnalysisError → List Enclosure → AnalysisError → Prop
  | tooDeep (form : Form) (env : Env) :
      Raises a t 0 form env (.of (.tooDeep a.maxDepth) form) [] (.of (.tooDeep a.maxDepth) form)
  | expander {levels : Nat} {form : Form} {env : Env} {e : AnalysisError} :
      form.isExpanded → a.expand form env = .error e →
      Raises a t (levels + 1) form env e (form.enclosure false) e
  | expansion {levels : Nat} {form g : Form} {env : Env} {origin e : AnalysisError}
      {enclosing : List Enclosure} :
      form.isExpanded → a.expand form env = .ok g → (g == form) = false →
      a.FailsWith levels g env e t →
      Raises a t levels g env origin enclosing e →
      Raises a t (levels + 1) form env origin (enclosing ++ form.enclosure true) (e.leaving form)
  | fault {levels : Nat} {form f : Form} {env : Env} {between : List Form} (fault : AnalysisFault) :
      a.Keeps form env → form.Blames between f →
      Raises a t (levels + 1) form env (.of fault f)
        (Enclosure.between between ++ form.enclosure true) ((AnalysisError.of fault f).leaving form)
  | part {levels : Nat} {form part : Form} {env inner : Env} {between : List Form}
      {origin e : AnalysisError} {enclosing : List Enclosure} :
      a.Keeps form env → form.Part between part → a.FailsWith levels part inner e t →
      Raises a t levels part inner origin enclosing e →
      Raises a t (levels + 1) form env origin
        (enclosing ++ Enclosure.between between ++ form.enclosure true) (e.leaving form)

variable {a : Analyzer} {levels : Nat} {form : Form} {env : Env} {t : Store}
  {origin e : AnalysisError} {enclosing : List Enclosure}

theorem Raises.error_eq (h : a.Raises t levels form env origin enclosing e) :
    e = { origin with location := origin.location.or (enclosing.findSome? (·.given?)) } := by
  induction h with
  | tooDeep => rw [List.findSome?_nil, Option.or_none]
  | @expander levels form env e hform hexpand =>
    have hnone : (form.enclosure false).findSome? (·.given?) = none := by
      unfold Form.enclosure
      split <;> rfl
    rw [hnone, Option.or_none]
  | expansion hform hexpand hne hrun _ ih =>
    rw [AnalysisError.leaving_eq, ih, List.findSome?_append, Option.or_assoc]
  | fault fault hkeeps hblames =>
    rw [AnalysisError.leaving_eq, List.findSome?_append, Enclosure.given?_between, Option.none_or]
  | part hkeeps hpart hrun _ ih =>
    rw [AnalysisError.leaving_eq, ih, List.findSome?_append, List.findSome?_append,
      Enclosure.given?_between, Option.or_none, Option.or_assoc]

theorem Raises.location_isSome (h : a.Raises t levels form env origin enclosing e)
    (hcall : form.isCall) (hform : (SourceLocation.of? form).isSome) :
    e.location.isSome ∨ form.isExpanded ∧ a.expand form env = .error e := by
  have hleaving (e : AnalysisError) : (e.leaving form).location.isSome := by
    simp [AnalysisError.leaving, AnalysisError.within, hcall, hform]
  cases h with
  | tooDeep => exact .inl hform
  | expander hexpanded hexpand => exact .inr ⟨hexpanded, hexpand⟩
  | expansion => exact .inl (hleaving _)
  | fault => exact .inl (hleaving _)
  | part => exact .inl (hleaving _)

/-- The errors of the expander are located at the forms that they blame. -/
def LocatesErrors (a : Analyzer) : Prop :=
  ∀ form env e, a.expand form env = .error e → e.location = SourceLocation.of? e.form

theorem Raises.origin_location (h : a.Raises t levels form env origin enclosing e)
    (ha : a.LocatesErrors) : origin.location = SourceLocation.of? origin.form := by
  induction h with
  | tooDeep => rfl
  | expander hform hexpand => exact ha _ _ _ hexpand
  | expansion _ _ _ _ _ ih => exact ih
  | fault => rfl
  | part _ _ _ _ ih => exact ih

end Analyzer

end LispFront
