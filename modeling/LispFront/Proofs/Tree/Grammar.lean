import LispFront.Proofs.Tree.Path

/-!
# The grammar of trees

Every operator plays a role, and every slot asks for one. Bodies, bindings, methods, handlers and
the branches of a `case*` stand in the slots made for them and nowhere else; all other nodes are
expressions. What a construct asks of its operands beyond their roles is its formation rule.
-/

namespace LispFront

inductive Role where
  | expression | body | binding | method | handler | branch
deriving DecidableEq, Repr

namespace Op

def role : Op → Role
  | .sequence _ _ true => .body
  | .binding _ => .binding
  | .method .. => .method
  | .handler .. => .handler
  | .caseBranch .. => .branch
  | _ => .expression

def slotRole : Op → Slot → Role
  | .letBlock .., .bindings | .letfnBlock .., .bindings | .loop .., .bindings => .binding
  | .letBlock .., .body | .letfnBlock .., .body | .loop .., .body => .body
  | .fn .., .local | .handler .., .local => .binding
  | .fn .., .methods => .method
  | .method .., .params => .binding
  | .method .., .body | .handler .., .body => .body
  | .tryBlock .., .body | .tryBlock .., .finally => .body
  | .tryBlock .., .catches => .handler
  | .case .., .nodes => .branch
  | _, _ => .expression

def isConst : Op → Bool
  | .const .. => true
  | _ => false

def carriesMetadata : Op → Bool
  | .vector _ | .map .. | .set _ | .fn .. => true
  | _ => false

def IsNonemptyMap (op : Op) : Prop := ∃ keys vals, op = .map keys vals ∧ keys ≠ []

def Binds (kind : LocalKind) (init : Bool) (op : Op) : Prop :=
  ∃ b, op = .binding b ∧ b.kind = kind ∧ b.init.isSome = init

/-- Parameters are numbered, and the last one is variadic if the method is. -/
structure Parameters (params : List Node) (fixed : Nat) (variadic : Bool) : Prop where
  length : params.length = fixed + variadic.toNat
  numbered : ∀ i p, params[i]? = some p → ∃ b, p.op = .binding b ∧ b.kind = .arg ∧
    b.init = none ∧ b.argId = some i ∧ (b.variadic ↔ variadic ∧ i = fixed)

/-- What an operator asks of its operands beyond their roles. -/
def Formed : Op → Prop
  | .const _ _ metadata => ∀ n ∈ metadata, ∃ m, n.op = .const .map (.map m []) none ∧ m ≠ []
  | .map keys vals => keys.length = vals.length
  | .letBlock bindings _ => ∀ n ∈ bindings, n.op.Binds .let true
  | .loop _ bindings _ => ∀ n ∈ bindings, n.op.Binds .loop true
  | .letfnBlock bindings _ => ∀ n ∈ bindings, n.op.Binds .letfn true
  | .fn self .. => ∀ n ∈ self, n.op.Binds .fn false
  | .method _ params fixed variadic .. => Parameters params fixed variadic
  | .handler _ caught _ => caught.op.Binds .catch false
  | .caseBranch tests _ => ∃ test, tests = [test] ∧ test.op.isConst
  | .withMetadata metadata expr =>
    metadata.op.IsNonemptyMap ∧ expr.op.carriesMetadata ∧ expr.env.context = .expr
  | _ => True

theorem Binds.role {kind : LocalKind} {init : Bool} {op : Op} (h : op.Binds kind init) :
    op.role = .binding := by
  obtain ⟨b, rfl, -⟩ := h
  rfl

end Op

namespace Node

/-- A node in that role, with what belongs below it. -/
inductive Plays : Role → Node → Prop where
  | intro {role : Role} {n : Node} : n.op.role = role → n.op.Formed →
      (∀ slot i m, n.Holds slot i m → Plays (n.op.slotRole slot) m) → Plays role n

namespace Plays

variable {role : Role} {n m : Node} {hops : List Hop}

theorem role_eq (h : Plays role n) : n.op.role = role := by
  cases h with
  | intro hrole _ _ => exact hrole

theorem formed (h : Plays role n) : n.op.Formed := by
  cases h with
  | intro _ hformed _ => exact hformed

theorem inSlots {slot : Slot} {i : Nat} (h : Plays role n) (hm : n.Holds slot i m) :
    Plays (n.op.slotRole slot) m := by
  cases h with
  | intro _ _ hslots => exact hslots slot i m hm

theorem along (h : Plays role n) (p : n.Path hops m) : ∃ role, Plays role m := by
  induction p generalizing role with
  | here n => exact ⟨role, h⟩
  | down hm p ih => exact ih (h.inSlots hm)

theorem congr (h : Plays role n) (hop : m.op = n.op) : Plays role m := by
  cases h with
  | intro hrole hformed hslots =>
    refine .intro (hop ▸ hrole) (hop ▸ hformed) fun slot i c hc => ?_
    rw [hop]
    exact hslots slot i c (by simpa [Holds, children, hop] using hc)

theorem of_slots (hrole : n.op.role = role) (hformed : n.op.Formed)
    (hs : InSlots (fun slot => Plays (n.op.slotRole slot)) n.children) : Plays role n :=
  .intro hrole hformed fun _ _ _ hm => hs.holds hm

end Plays

end Node

end LispFront
