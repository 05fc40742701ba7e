import LispFront.Proofs.Tree.Path

/-!
# What a tree defines

The vars of the definitions in a tree, and the namespace its nodes were analyzed in. Both are read
off the operator of a node and the nodes below it. `Accounts ns vs nodes` says that the vars `vs`
are those that the nodes define, and that the nodes stay in the namespace `ns`; the order in which
vars and nodes are listed does not matter.
-/

namespace LispFront

def Op.defined? : Op → Option Var
  | .define v .. => some v
  | _ => none

namespace Node

variable {n m : Node} {ns : Symbol}

def Defines (n : Node) (v : Var) : Prop := ∃ hops m, n.Path hops m ∧ m.op.defined? = some v

def StaysIn (n : Node) (ns : Symbol) : Prop := ∀ hops m, n.Path hops m → m.env.ns = ns

theorem mem_childNodes_iff : m ∈ n.childNodes ↔ ∃ slot i, n.Holds slot i m := by
  constructor
  · intro h
    obtain ⟨⟨slot, c⟩, hc, hm⟩ := List.mem_flatMap.mp h
    obtain ⟨i, hi⟩ := List.mem_iff_getElem?.mp hm
    exact ⟨slot, i, c, hc, hi⟩
  · rintro ⟨slot, i, c, hc, hi⟩
    exact mem_childNodes hc (List.mem_of_getElem? hi)

theorem staysIn_iff : n.StaysIn ns ↔ n.env.ns = ns ∧ ∀ m ∈ n.childNodes, m.StaysIn ns := by
  constructor
  · intro h
    refine ⟨h _ _ (.here n), fun m hm hops r p => ?_⟩
    obtain ⟨slot, i, hm⟩ := mem_childNodes_iff.mp hm
    exact h _ _ (.down hm p)
  · rintro ⟨hn, hbelow⟩ hops r p
    cases p with
    | here => exact hn
    | down hm p => exact hbelow _ (mem_childNodes_iff.mpr ⟨_, _, hm⟩) _ _ p

end Node

structure Accounts (ns : Symbol) (vs : List Var) (nodes : List Node) : Prop where
  mem_iff : ∀ v, v ∈ vs ↔ ∃ n ∈ nodes, n.Defines v
  staysIn : ∀ n ∈ nodes, n.StaysIn ns

end LispFront
