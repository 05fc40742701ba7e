import LispFront.Proofs.Tree.Definitions
import LispFront.Proofs.Tree.Walk

/-!
# What a tree stands for in the store

A definition stands for a var that was interned, a loop or a method for an id that was drawn;
nothing else in a tree stands for a change to the store.
-/

namespace LispFront

/-- A change that an analysis makes to its store. -/
inductive Effect where
  | intern (v : Var)
  | draw (id : Symbol)

namespace Effect

def var? : Effect → Option Var
  | .intern v => some v
  | .draw _ => none

def id? : Effect → Option Symbol
  | .intern _ => none
  | .draw id => some id

end Effect

namespace Op

def effect? : Op → Option Effect
  | .define v .. => some (.intern v)
  | .loop id .. => some (.draw id)
  | .method id .. => some (.draw id)
  | _ => none

def loopId? (op : Op) : Option Symbol := op.recurPoint?.map (·.1)

theorem effect?_eq_intern_iff {op : Op} {v : Var} :
    op.effect? = some (.intern v) ↔ op.defined? = some v := by
  cases op <;> simp [effect?, defined?]

theorem loopId?_eq (op : Op) : op.loopId? = op.effect?.bind Effect.id? := by cases op <;> rfl

end Op

namespace Node

def loopIds (n : Node) : List Symbol := n.walk.filterMap (·.op.loopId?)

theorem mem_walkStack_iff {m : Node} {nodes : List Node} :
    m ∈ walkStack nodes ↔ ∃ n ∈ nodes, ∃ hops, n.Path hops m := by
  induction nodes using walkStack.induct with
  | case1 => simp [walkStack]
  | case2 n stack ih =>
    rw [walkStack_cons, List.mem_cons, ih]
    constructor
    · rintro (rfl | ⟨c, hc, hops, p⟩)
      · exact ⟨m, List.mem_cons_self, [], .here m⟩
      · rcases List.mem_append.mp hc with hc | hc
        · obtain ⟨slot, i, hc⟩ := mem_childNodes_iff.mp hc
          exact ⟨n, List.mem_cons_self, _, .down hc p⟩
        · exact ⟨c, List.mem_cons_of_mem _ hc, hops, p⟩
    · rintro ⟨c, hc, hops, p⟩
      rcases List.mem_cons.mp hc with rfl | hc
      · cases p with
        | here => exact .inl rfl
        | down hm p =>
          have hbelow := mem_childNodes_iff.mpr ⟨_, _, hm⟩
          exact .inr ⟨_, List.mem_append_left _ hbelow, _, p⟩
      · exact .inr ⟨c, List.mem_append_right _ hc, hops, p⟩

/-- The changes that the trees stand for, in the order in which the trees are walked. -/
def effects (nodes : List Node) : List Effect := (walkStack nodes).filterMap (·.op.effect?)

theorem effects_append (as bs : List Node) : effects (as ++ bs) = effects as ++ effects bs := by
  rw [effects, walkStack_append, List.filterMap_append]
  rfl

theorem effects_singleton (n : Node) :
    effects [n] = n.op.effect?.toList ++ effects n.childNodes := by
  rw [effects, walkStack_cons, List.append_nil, List.filterMap_cons]
  cases n.op.effect? <;> rfl

theorem effects_perm {as bs : List Node} (h : as.Perm bs) : (effects as).Perm (effects bs) := by
  unfold effects
  rw [walkStack_eq_flatMap, walkStack_eq_flatMap]
  exact (h.flatMap_right _).filterMap _

theorem mem_effects_iff {nodes : List Node} {v : Var} :
    .intern v ∈ effects nodes ↔ ∃ n ∈ nodes, n.Defines v := by
  unfold effects
  simp only [List.mem_filterMap, mem_walkStack_iff, Op.effect?_eq_intern_iff]
  constructor
  · rintro ⟨m, ⟨n, hn, hops, p⟩, hv⟩
    exact ⟨n, hn, hops, m, p, hv⟩
  · rintro ⟨n, hn, hops, m, p, hv⟩
    exact ⟨m, ⟨n, hn, hops, p⟩, hv⟩

theorem loopIds_eq (n : Node) : n.loopIds = (effects [n]).filterMap Effect.id? := by
  unfold loopIds effects
  rw [List.filterMap_filterMap]
  exact congrArg (n.walk.filterMap ·) (funext fun m => Op.loopId?_eq m.op)

end Node

end LispFront
