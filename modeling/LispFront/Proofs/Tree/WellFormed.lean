import LispFront.Proofs.Form.WellFormed
import LispFront.Proofs.Tree.Path
import LispFront.Tree.Env

/-!
# Well-formed trees

A tree keeps forms: those that its nodes stand for and were expanded from, constants, the metadata
of calls and of vars. It is well-formed if all of these are, in the nodes below and in the initial
values of the bindings that are kept as well.
-/

namespace LispFront

namespace Op

def forms : Op → List Form
  | .const _ val _ => [val]
  | .varRef v | .theVar v | .define v .. => [.map v.metadata []]
  | .invoke _ _ metadata => [.map metadata []]
  | .case _ _ _ _ _ _ _ skipCheck => skipCheck.toList
  | _ => []

/-- The bindings of which the initial value stands in no slot. -/
def bindings : Op → List Binding
  | .localRef b => [b]
  | .method _ _ _ _ _ self => self.toList
  | _ => []

end Op

def Env.bindings (e : Env) : List Binding := e.locals ++ e.self.toList

namespace Node

def forms (n : Node) : List Form := n.form :: (n.expandedFrom ++ n.op.forms)

def bindings (n : Node) : List Binding := n.op.bindings ++ n.env.bindings

/-- All forms are well-formed that are kept here, below or by a binding. -/
inductive WellFormed : Node → Prop
  | intro {n : Node} : (∀ f ∈ n.forms, f.WellFormed) → (∀ m ∈ n.childNodes, WellFormed m) →
      (∀ b ∈ n.bindings, ∀ m ∈ b.init, WellFormed m) → WellFormed n

end Node

def Env.WellFormed (e : Env) : Prop := ∀ b ∈ e.bindings, ∀ n ∈ b.init, n.WellFormed

theorem Env.WellFormed.empty (ns : Symbol) : (Env.empty ns).WellFormed := nofun

namespace Node.WellFormed

variable {n m : Node}

theorem forms (h : n.WellFormed) : ∀ f ∈ n.forms, f.WellFormed := by
  cases h with
  | intro hforms _ _ => exact hforms

theorem form (h : n.WellFormed) : n.form.WellFormed := h.forms _ List.mem_cons_self

theorem childNodes (h : n.WellFormed) (hm : m ∈ n.childNodes) : m.WellFormed := by
  cases h with
  | intro _ hchildren _ => exact hchildren m hm

theorem of_path {hops : List Hop} (h : n.WellFormed) (p : n.Path hops m) : m.WellFormed := by
  induction p with
  | here => exact h
  | down hm _ ih =>
    obtain ⟨c, hc, hi⟩ := hm
    exact ih (h.childNodes (Node.mem_childNodes hc (List.mem_of_getElem? hi)))

theorem env (h : n.WellFormed) : n.env.WellFormed := by
  cases h with
  | intro _ _ hbindings => exact fun b hb => hbindings b (List.mem_append_right _ hb)

theorem addExpandedFrom {f : Form} (h : n.WellFormed) (hf : f.WellFormed) :
    (n.addExpandedFrom f).WellFormed := by
  cases h with
  | intro hforms hchildren hbindings =>
    refine .intro (fun g hg => ?_) hchildren hbindings
    have hg : g = n.form ∨ g = f ∨ g ∈ n.expandedFrom ++ n.op.forms := by
      simpa [Node.forms, Node.addExpandedFrom] using hg
    rcases hg with rfl | rfl | hg
    · exact hforms _ List.mem_cons_self
    · exact hf
    · exact hforms g (List.mem_cons_of_mem _ hg)

end Node.WellFormed

end LispFront
