import LispFront.Directory
import LispFront.Proofs.Except
import LispFront.Proofs.Sorted
import LispFront.Proofs.Symbol

/-!
# Looking up in a directory

What a directory holds is what can be looked up in it: namespaces, the vars and the aliases inside a
namespace, and classes. Each operation is described by these four look-ups, before and after it.
-/

namespace LispFront

open Std

theorem Symbol.cmp_eq_iff {a b : Symbol} : a.cmp b = .eq ↔ a = b := LawfulEqCmp.compare_eq_iff_eq

namespace SymbolMap

theorem find?_empty (k : Symbol) : (empty : SymbolMap α).find? k = none := rfl

theorem find?_insert (m : SymbolMap α) (key : Symbol) (a : α) (k : Symbol) :
    (m.insert key a).find? k = if k = key then some a else m.find? k := by
  have h := Sorted.find?_insert Symbol.cmp Prod.fst k (key, a) m.entries
  simp only [Symbol.cmp_eq_iff] at h
  unfold find? insert
  rw [h]
  split
  · rfl
  · rfl

end SymbolMap

namespace Namespace

variable (n : Namespace)

theorem var?_addVar (name : Symbol) (v : Var) (x : Symbol) :
    (n.addVar name v).var? x = if x = name then some v else n.var? x :=
  n.vars.find?_insert name v x

theorem aliasTarget?_addAlias (short target s : Symbol) :
    (n.addAlias short target).aliasTarget? s =
      if s = short then some target else n.aliasTarget? s :=
  n.aliases.find?_insert short target s

end Namespace

namespace Directory

def var? (d : Directory) (ns name : Symbol) : Option Var := (d.find? ns).bind (·.var? name)

def aliasTarget? (d : Directory) (ns short : Symbol) : Option Symbol :=
  (d.find? ns).bind (·.aliasTarget? short)

/-- Every namespace is filed under its name. -/
def Named (d : Directory) : Prop := ∀ ns n, d.find? ns = some n → n.name = ns

variable {d d' : Directory} {n n' : Namespace} {key ns short target name : Symbol}

theorem find?_empty (ns : Symbol) : empty.find? ns = none := rfl

theorem find?_put (d : Directory) (key : Symbol) (n : Namespace) (ns : Symbol) :
    (d.put key n).find? ns = if ns = key then some n else d.find? ns :=
  d.namespaces.find?_insert key n ns

section Writers

/-! What each writer answers, and the table it leaves. -/

theorem run_get (d : Directory) (name : Symbol) :
    (WriterM.get name).run.run d =
      match d.find? name with
      | some n => (.ok n, d)
      | none => (.error (.missingNamespace name), d) := by
  change (ExceptT.run (match d.find? name with
    | some n => return n
    | none => throw (.missingNamespace name) : WriterM Namespace)).run d = _
  cases d.find? name with
  | none => rfl
  | some n => rfl

theorem update_create (d : Directory) (ns : Symbol) :
    d.update (.create ns) =
      (.ok (), if (d.find? ns).isNone then d.put ns (.empty ns) else d) := by
  change (ExceptT.run (if (d.find? ns).isNone then modify (·.put ns (.empty ns)) else pure () :
    WriterM Unit)).run d = _
  split
  · rfl
  · rfl

theorem tryAddAlias_eq (d : Directory) (ns short target : Symbol) :
    d.tryAddAlias ns short target =
      match d.find? target, d.find? ns with
      | none, _ => (.error (.missingNamespace target), d)
      | some _, none => (.error (.missingNamespace ns), d)
      | some _, some n =>
        match n.aliasTarget? short with
        | some existing =>
          if existing = target then (.ok (), d.put n.name (n.addAlias short target))
          else (.error (.aliasConflict ns short existing), d)
        | none => (.ok (), d.put n.name (n.addAlias short target)) := by
  unfold tryAddAlias update WriterM.addAlias
  rw [run_bind, run_get]
  cases d.find? target with
  | none => rfl
  | some m =>
    dsimp only
    rw [run_bind, run_get]
    cases d.find? ns with
    | none => rfl
    | some n =>
      dsimp only
      cases n.aliasTarget? short with
      | none => rfl
      | some existing =>
        dsimp only
        split
        · rfl
        · rfl

theorem tryIntern_eq (d : Directory) (ns name : Symbol) (metadata : FormMap) :
    d.tryIntern ns name metadata =
      if name.ns.isSome then (.error (.qualifiedName name), d)
      else match d.find? ns with
        | none => (.error (.missingNamespace ns), d)
        | some n =>
          (.ok ⟨⟨n.name, name⟩, metadata⟩,
            d.put n.name (n.addVar name ⟨⟨n.name, name⟩, metadata⟩)) := by
  unfold tryIntern update WriterM.intern
  rw [run_bind, run_get]
  cases d.find? ns with
  | none => rfl
  | some n => rfl

/-- A writer that gives up has not changed its copy before. -/
theorem tryAddAlias_of_error {e : DirectoryError}
    (h : (d.tryAddAlias ns short target).1 = .error e) :
    (d.tryAddAlias ns short target).2 = d := by
  rw [tryAddAlias_eq] at h ⊢
  split
  · rfl
  · rfl
  · rename_i m n htarget hns
    rw [htarget, hns] at h
    dsimp only at h
    split
    · rename_i existing hshort
      rw [hshort] at h
      dsimp only at h
      split
      · rename_i heq
        rw [if_pos heq] at h
        cases h
      · rfl
    · rename_i hshort
      rw [hshort] at h
      cases h

theorem tryIntern_of_error {metadata : FormMap} {e : DirectoryError}
    (h : (d.tryIntern ns name metadata).1 = .error e) : (d.tryIntern ns name metadata).2 = d := by
  rw [tryIntern_eq] at h ⊢
  split
  · rfl
  · rename_i hname
    rw [if_neg hname] at h
    cases hns : d.find? ns with
    | none => rfl
    | some n =>
      rw [hns] at h
      cases h

theorem outcome_eq_ok {p : Except DirectoryError α × Directory} {a : α} :
    outcome p = .ok (a, d') ↔ p = (.ok a, d') := by
  rcases p with ⟨e | b, d₁⟩
  · simp [outcome]
  · simp [outcome]

theorem outcome_eq_error {p : Except DirectoryError α × Directory} {e : DirectoryError} :
    outcome p = .error e ↔ p.1 = .error e := by
  rcases p with ⟨e' | b, d₁⟩
  · simp [outcome]
  · simp [outcome]

theorem addAlias_eq_ok_iff : d.addAlias ns short target = .ok d' ↔
    d.tryAddAlias ns short target = (.ok (), d') := by
  unfold addAlias
  rw [map_eq_ok]
  constructor
  · rintro ⟨⟨⟨⟩, d₁⟩, h, rfl⟩
    exact outcome_eq_ok.mp h
  · intro h
    exact ⟨((), d'), outcome_eq_ok.mpr h, rfl⟩

end Writers

theorem find?_create (d : Directory) (ns ns' : Symbol) :
    (d.create ns).find? ns' =
      if ns' = ns ∧ (d.find? ns).isNone then some (.empty ns) else d.find? ns' := by
  unfold create
  rw [update_create]
  cases h : d.find? ns with
  | none => simp [find?_put]
  | some n => simp

theorem var?_create (d : Directory) (ns ns' name : Symbol) :
    (d.create ns).var? ns' name = d.var? ns' name := by
  unfold var?
  rw [find?_create]
  split
  · rename_i h
    obtain ⟨rfl, hnone⟩ := h
    rw [Option.isNone_iff_eq_none.mp hnone]
    rfl
  · rfl

theorem aliasTarget?_create (d : Directory) (ns ns' short : Symbol) :
    (d.create ns).aliasTarget? ns' short = d.aliasTarget? ns' short := by
  unfold aliasTarget?
  rw [find?_create]
  split
  · rename_i h
    obtain ⟨rfl, hnone⟩ := h
    rw [Option.isNone_iff_eq_none.mp hnone]
    rfl
  · rfl

theorem isClass_create (d : Directory) (ns cls : Symbol) :
    (d.create ns).isClass cls = d.isClass cls := by
  unfold create
  rw [update_create]
  dsimp only
  split
  · rfl
  · rfl

theorem isClass_registerClass (d : Directory) (cls c : Symbol) :
    (d.registerClass cls).isClass c = (decide (c = cls) || d.isClass c) := by
  have h := Sorted.find?_insert Symbol.cmp id c cls d.classes
  simp only [Symbol.cmp_eq_iff, id] at h
  change (Sorted.find? c.cmp (Sorted.insert Symbol.cmp cls d.classes)).isSome = _
  rw [h]
  split
  · rename_i hc
    simp [hc]
  · rename_i hc
    simp [hc, isClass]

theorem resolve?_eq (d : Directory) (ns s : Symbol) :
    d.resolve? ns s =
      (match s.ns with
        | some N => d.resolveNamespace? ns (.plain N)
        | none => some ns).bind (d.var? · (.plain s.name)) := by
  unfold resolve? var?
  cases s.ns with
  | some N => rfl
  | none => rfl

theorem resolve?_qualified (d : Directory) (ns : Symbol) (N name : String) :
    d.resolve? ns (.qualified N name) =
      (d.resolveNamespace? ns (.plain N)).bind (d.var? · (.plain name)) := rfl

theorem resolveNamespace?_eq (d : Directory) (ns name : Symbol) :
    d.resolveNamespace? ns name =
      (d.aliasTarget? ns name).or ((d.find? name).map Namespace.name) := by
  have htarget : (d.find? ns).bind (·.aliasTarget? name) = d.aliasTarget? ns name := rfl
  rw [resolveNamespace?, htarget]
  cases d.aliasTarget? ns name with
  | none => rfl
  | some target => rfl

theorem addAlias_eq_ok : d.addAlias ns short target = .ok d' ↔
    (d.find? target).isSome ∧
      (d.aliasTarget? ns short = none ∨ d.aliasTarget? ns short = some target) ∧
      ∃ n, d.find? ns = some n ∧ d' = d.put n.name (n.addAlias short target) := by
  rw [addAlias_eq_ok_iff, tryAddAlias_eq]
  unfold aliasTarget?
  cases htarget : d.find? target with
  | none =>
    simp only [Option.isSome_none, Bool.false_eq_true, false_and, Prod.mk.injEq, reduceCtorEq]
  | some m =>
    cases hns : d.find? ns with
    | none => simp only [Prod.mk.injEq, reduceCtorEq, false_and, exists_false, and_false]
    | some n =>
      simp only [Option.bind_some, Option.isSome_some, true_and, Option.some.injEq, exists_eq_left']
      cases n.aliasTarget? short with
      | none => simp [eq_comm]
      | some existing =>
        by_cases h : existing = target
        · simp [h, eq_comm]
        · simp [h]

theorem intern_eq (d : Directory) (ns name : Symbol) (metadata : FormMap) :
    d.intern ns name metadata =
      if name.ns.isSome then .error (.qualifiedName name)
      else match d.find? ns with
        | none => .error (.missingNamespace ns)
        | some n =>
          .ok (⟨⟨n.name, name⟩, metadata⟩,
            d.put n.name (n.addVar name ⟨⟨n.name, name⟩, metadata⟩)) := by
  rw [intern, tryIntern_eq]
  split
  · rfl
  · cases d.find? ns with
    | none => rfl
    | some n => rfl

theorem intern_eq_ok {metadata : FormMap} {v : Var} :
    d.intern ns name metadata = .ok (v, d') ↔
      name.ns = none ∧ ∃ n, d.find? ns = some n ∧ v = ⟨⟨n.name, name⟩, metadata⟩ ∧
        d' = d.put n.name (n.addVar name v) := by
  rw [intern_eq]
  cases hname : name.ns with
  | some q => simp only [Option.isSome_some, if_true, reduceCtorEq, false_and]
  | none =>
    cases hns : d.find? ns with
    | none =>
      simp only [Option.isSome_none, Bool.false_eq_true, if_false, reduceCtorEq, false_and,
        exists_false, and_false]
    | some n =>
      simp only [Option.isSome_none, Bool.false_eq_true, if_false, Prod.mk.injEq, Except.ok.injEq,
        true_and, Option.some.injEq, exists_eq_left']
      constructor
      · rintro ⟨rfl, rfl⟩
        exact ⟨rfl, rfl⟩
      · rintro ⟨rfl, rfl⟩
        exact ⟨rfl, rfl⟩

theorem exists_put_of_addAlias (h : d.addAlias ns short target = .ok d') :
    ∃ n, d.find? ns = some n ∧ d' = d.put n.name (n.addAlias short target) :=
  (addAlias_eq_ok.mp h).2.2

theorem exists_put_of_intern {metadata : FormMap} {v : Var}
    (h : d.intern ns name metadata = .ok (v, d')) :
    ∃ n, d.find? ns = some n ∧ v = ⟨⟨n.name, name⟩, metadata⟩ ∧
      d' = d.put n.name (n.addVar name v) :=
  (intern_eq_ok.mp h).2

/-- What a try leaves is what it answers with, or the table as it was. -/
theorem tryIntern_eq_intern (d : Directory) (ns name : Symbol) (metadata : FormMap) :
    d.tryIntern ns name metadata =
      match d.intern ns name metadata with
      | .ok (v, d') => (.ok v, d')
      | .error e => (.error e, d) := by
  cases h : d.intern ns name metadata with
  | ok a => exact outcome_eq_ok.mp h
  | error e =>
    have herror := outcome_eq_error.mp h
    exact Prod.ext herror (tryIntern_of_error herror)

section Put

theorem isSome_find?_put (h : d.find? key = some n') (ns : Symbol) :
    ((d.put key n).find? ns).isSome = (d.find? ns).isSome := by
  rw [find?_put]
  split
  · rename_i hns
    rw [hns, h]
    rfl
  · rfl

theorem var?_put (d : Directory) (key : Symbol) (n : Namespace) (ns name : Symbol) :
    (d.put key n).var? ns name = if ns = key then n.var? name else d.var? ns name := by
  unfold var?
  rw [find?_put]
  split
  · rfl
  · rfl

theorem aliasTarget?_put (d : Directory) (key : Symbol) (n : Namespace) (ns short : Symbol) :
    (d.put key n).aliasTarget? ns short =
      if ns = key then n.aliasTarget? short else d.aliasTarget? ns short := by
  unfold aliasTarget?
  rw [find?_put]
  split
  · rfl
  · rfl

end Put

namespace Named

theorem put (hd : d.Named) (n : Namespace) : (d.put n.name n).Named := by
  intro ns m hm
  rw [find?_put] at hm
  split at hm
  · rename_i hns
    cases hm
    exact hns.symm
  · exact hd ns m hm

theorem create (hd : d.Named) (ns : Symbol) : (d.create ns).Named := by
  unfold Directory.create
  rw [update_create]
  dsimp only
  split
  · exact hd.put (.empty ns)
  · exact hd

theorem addAlias (hd : d.Named) (h : d.addAlias ns short target = .ok d') : d'.Named := by
  obtain ⟨n, -, rfl⟩ := exists_put_of_addAlias h
  exact hd.put (n.addAlias short target)

theorem intern {metadata : FormMap} {v : Var} (hd : d.Named)
    (h : d.intern ns name metadata = .ok (v, d')) : d'.Named := by
  obtain ⟨n, -, -, rfl⟩ := exists_put_of_intern h
  exact hd.put (n.addVar name v)

end Named

section AddAlias

variable (hd : d.Named) (h : d.addAlias ns short target = .ok d')
include hd h

theorem isSome_find?_of_addAlias (ns' : Symbol) : (d'.find? ns').isSome = (d.find? ns').isSome := by
  obtain ⟨n, hns, rfl⟩ := exists_put_of_addAlias h
  obtain rfl := hd ns n hns
  exact isSome_find?_put hns ns'

theorem var?_of_addAlias (ns' name : Symbol) : d'.var? ns' name = d.var? ns' name := by
  obtain ⟨n, hns, rfl⟩ := exists_put_of_addAlias h
  obtain rfl := hd ns n hns
  rw [var?_put]
  split
  · rename_i hname
    rw [hname, var?]
    exact (congrArg (·.bind (·.var? name)) hns).symm
  · rfl

theorem aliasTarget?_of_addAlias (ns' s : Symbol) :
    d'.aliasTarget? ns' s = if ns' = ns ∧ s = short then some target else d.aliasTarget? ns' s := by
  obtain ⟨n, hns, rfl⟩ := exists_put_of_addAlias h
  obtain rfl := hd ns n hns
  have hold : n.aliasTarget? s = d.aliasTarget? n.name s := by simp [aliasTarget?, hns]
  rw [aliasTarget?_put, Namespace.aliasTarget?_addAlias, hold]
  by_cases hname : ns' = n.name
  · subst hname
    simp
  · simp [hname]

omit hd in
theorem isClass_of_addAlias (cls : Symbol) : d'.isClass cls = d.isClass cls := by
  obtain ⟨n, -, rfl⟩ := exists_put_of_addAlias h
  rfl

end AddAlias

section Intern

variable {metadata : FormMap} {v : Var} (hd : d.Named)
  (h : d.intern ns name metadata = .ok (v, d'))
include hd h

theorem id_of_intern : v.id = ⟨ns, name⟩ := by
  obtain ⟨n, hns, rfl, -⟩ := exists_put_of_intern h
  rw [hd ns n hns]

theorem isSome_find?_of_intern (ns' : Symbol) : (d'.find? ns').isSome = (d.find? ns').isSome := by
  obtain ⟨n, hns, -, rfl⟩ := exists_put_of_intern h
  obtain rfl := hd ns n hns
  exact isSome_find?_put hns ns'

theorem var?_of_intern (ns' x : Symbol) :
    d'.var? ns' x = if ns' = ns ∧ x = name then some v else d.var? ns' x := by
  obtain ⟨n, hns, -, rfl⟩ := exists_put_of_intern h
  obtain rfl := hd ns n hns
  have hold : n.var? x = d.var? n.name x := by simp [var?, hns]
  rw [var?_put, Namespace.var?_addVar, hold]
  by_cases hname : ns' = n.name
  · subst hname
    simp
  · simp [hname]

theorem aliasTarget?_of_intern (ns' s : Symbol) : d'.aliasTarget? ns' s = d.aliasTarget? ns' s := by
  obtain ⟨n, hns, -, rfl⟩ := exists_put_of_intern h
  obtain rfl := hd ns n hns
  rw [aliasTarget?_put]
  split
  · rename_i hname
    rw [hname, aliasTarget?]
    exact (congrArg (·.bind (·.aliasTarget? s)) hns).symm
  · rfl

omit hd in
theorem isClass_of_intern (cls : Symbol) : d'.isClass cls = d.isClass cls := by
  obtain ⟨n, -, -, rfl⟩ := exists_put_of_intern h
  rfl

end Intern

end Directory

end LispFront
