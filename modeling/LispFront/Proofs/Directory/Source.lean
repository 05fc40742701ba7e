import LispFront.Proofs.Directory.Lookup
import LispFront.Proofs.Form.Source

/-!
# Directories of vars defined in other places

Two directories are the same but for the source if they hold the same namespaces, aliases, classes
and vars, and the metadata of each var is the same but for where it was defined. Looking up and
interning keep to that.
-/

namespace LispFront

open List (Forall₂)

structure Var.SameButSource (v v' : Var) : Prop where
  id : v.id = v'.id
  metadata : v.metadata.SameButSource v'.metadata

def SymbolMap.Related (R : α → α → Prop) (m m' : SymbolMap α) : Prop :=
  Forall₂ (fun e e' => e.1 = e'.1 ∧ R e.2 e'.2) m.entries m'.entries

structure Namespace.SameButSource (n n' : Namespace) : Prop where
  name : n.name = n'.name
  vars : n.vars.Related Var.SameButSource n'.vars
  aliases : n.aliases = n'.aliases

structure Directory.SameButSource (d d' : Directory) : Prop where
  namespaces : d.namespaces.Related Namespace.SameButSource d'.namespaces
  classes : d.classes = d'.classes

namespace SymbolMap

variable {R : α → α → Prop} {m m' : SymbolMap α}

theorem related_refl (h : ∀ a, R a a) (m : SymbolMap α) : m.Related R m :=
  List.forall₂_same.mpr fun e _ => ⟨rfl, h e.2⟩

variable (h : m.Related R m')
include h

theorem related_find? (key : Symbol) : Option.Rel R (m.find? key) (m'.find? key) := by
  have hfound := Sorted.related_find? (fun _ _ he => congrArg key.cmp he.1) h
  rw [find?, find?, Option.map_eq_bind, Option.map_eq_bind]
  exact related_bind hfound fun _ _ he => .some he.2

theorem related_insert {a a' : α} (ha : R a a') (key : Symbol) :
    (m.insert key a).Related R (m'.insert key a') := by
  refine Sorted.related_insert (fun e e' f f' he hf => ?_) ⟨rfl, ha⟩ h
  rw [he.1, hf.1]

end SymbolMap

namespace Namespace.SameButSource

theorem refl (n : Namespace) : n.SameButSource n :=
  ⟨rfl, n.vars.related_refl fun _ => ⟨rfl, .refl _⟩, rfl⟩

variable {n n' : Namespace} (h : n.SameButSource n')
include h

theorem var? (name : Symbol) : Option.Rel Var.SameButSource (n.var? name) (n'.var? name) :=
  SymbolMap.related_find? h.vars name

theorem aliasTarget? (short : Symbol) : n.aliasTarget? short = n'.aliasTarget? short := by
  unfold Namespace.aliasTarget?
  rw [h.aliases]

theorem addVar {v v' : Var} (hv : v.SameButSource v') (name : Symbol) :
    (n.addVar name v).SameButSource (n'.addVar name v') :=
  ⟨h.name, SymbolMap.related_insert h.vars hv name, h.aliases⟩

end Namespace.SameButSource

namespace Directory.SameButSource

theorem refl (d : Directory) : d.SameButSource d := ⟨d.namespaces.related_refl .refl, rfl⟩

variable {d d' : Directory} (h : d.SameButSource d')
include h

theorem find? (name : Symbol) :
    Option.Rel Namespace.SameButSource (d.find? name) (d'.find? name) :=
  SymbolMap.related_find? h.namespaces name

theorem isClass (name : Symbol) : d.isClass name = d'.isClass name := by
  unfold Directory.isClass
  rw [h.classes]

theorem put {n n' : Namespace} (hn : n.SameButSource n') (key : Symbol) :
    (d.put key n).SameButSource (d'.put key n') :=
  ⟨SymbolMap.related_insert h.namespaces hn key, h.classes⟩

theorem resolveNamespace? (home name : Symbol) :
    d.resolveNamespace? home name = d'.resolveNamespace? home name := by
  have hname := map_eq_of_related (h.find? name) fun _ _ hn => hn.name
  have halias := bind_eq_of_related (h.find? home) fun _ _ hn => hn.aliasTarget? name
  unfold Directory.resolveNamespace?
  rw [halias, hname]

theorem var? (ns name : Symbol) : Option.Rel Var.SameButSource (d.var? ns name) (d'.var? ns name) :=
  related_bind (h.find? ns) fun _ _ hn => hn.var? name

theorem resolve? (home s : Symbol) :
    Option.Rel Var.SameButSource (d.resolve? home s) (d'.resolve? home s) := by
  unfold Directory.resolve?
  cases s.ns with
  | none => exact h.var? home _
  | some ns =>
    dsimp only
    rw [h.resolveNamespace?]
    cases d'.resolveNamespace? home (.plain ns) with
    | none => exact .none
    | some ns => exact h.var? ns _

end Directory.SameButSource

end LispFront
