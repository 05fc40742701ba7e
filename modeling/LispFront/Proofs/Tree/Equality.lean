import LispFront.Proofs.Form.Bare
import LispFront.Tree.Equality

/-!
# Laws of equality of trees

Every tree equals itself, and so do the operators, environments and bindings in it.
-/

namespace LispFront

theorem Form.beq_refl (f : Form) : f.beq f = true := Form.beq_iff_bare.mpr rfl

theorem FormMap.beq_refl (m : FormMap) : FormMap.beq m m = true :=
  Form.beqEntries_iff (fun _ _ => ⟨fun _ => Form.beq_iff_bare, fun _ => Form.beq_iff_bare⟩) |>.mpr rfl

theorem beqForm?_refl (f : Option Form) : beqForm? f f = true := by
  cases f with
  | none => rfl
  | some f => exact Form.beq_refl f

theorem Var.beq_refl (v : Var) : v.beq v = true := beq_self_eq_true v.id

mutual

theorem Binding.beq_refl : ∀ b : Binding, b.beq b = true
  | ⟨_, _, init, _, _, _⟩ => by simp [Binding.beq, beqNode?_refl init]

theorem Env.beq_refl : ∀ e : Env, e.beq e = true
  | ⟨locals, _, _, _, _, _, _, _, self⟩ => by
    simp [Env.beq, beqBindings_refl locals, beqBinding?_refl self]

theorem Op.beq_refl : ∀ op : Op, op.beq op = true
  | .const _ v m => by simp [Op.beq, Form.beq_refl v, beqNode?_refl m]
  | .vector xs => by simp [Op.beq, beqNodes_refl xs]
  | .map ks vs => by simp [Op.beq, beqNodes_refl ks, beqNodes_refl vs]
  | .set xs => by simp [Op.beq, beqNodes_refl xs]
  | .localRef b => by simp [Op.beq, Binding.beq_refl b]
  | .varRef v => by simp [Op.beq, Var.beq_refl v]
  | .theVar v => by simp [Op.beq, Var.beq_refl v]
  | .hostForm _ _ => by simp [Op.beq]
  | .classRef _ => by simp [Op.beq]
  | .invoke f xs m => by
    simp [Op.beq, Node.beq_refl f, beqNodes_refl xs, FormMap.beq_refl m]
  | .sequence xs r _ => by simp [Op.beq, beqNodes_refl xs, Node.beq_refl r]
  | .branch x y z => by simp [Op.beq, Node.beq_refl x, Node.beq_refl y, Node.beq_refl z]
  | .new c xs => by simp [Op.beq, Node.beq_refl c, beqNodes_refl xs]
  | .quote x => by simp [Op.beq, Node.beq_refl x]
  | .assign x y => by simp [Op.beq, Node.beq_refl x, Node.beq_refl y]
  | .tryBlock x cs f => by
    simp [Op.beq, Node.beq_refl x, beqNodes_refl cs, beqNode?_refl f]
  | .handler x y z => by simp [Op.beq, Node.beq_refl x, Node.beq_refl y, Node.beq_refl z]
  | .throw x => by simp [Op.beq, Node.beq_refl x]
  | .define v _ m i => by simp [Op.beq, Var.beq_refl v, beqNode?_refl m, beqNode?_refl i]
  | .hostCall x _ xs => by simp [Op.beq, Node.beq_refl x, beqNodes_refl xs]
  | .hostField x _ => by simp [Op.beq, Node.beq_refl x]
  | .hostMember x _ => by simp [Op.beq, Node.beq_refl x]
  | .letBlock xs x => by simp [Op.beq, beqNodes_refl xs, Node.beq_refl x]
  | .letfnBlock xs x => by simp [Op.beq, beqNodes_refl xs, Node.beq_refl x]
  | .loop _ xs x => by simp [Op.beq, beqNodes_refl xs, Node.beq_refl x]
  | .recur _ xs => by simp [Op.beq, beqNodes_refl xs]
  | .fn s xs _ _ _ => by simp [Op.beq, beqNode?_refl s, beqNodes_refl xs]
  | .method _ xs _ _ x s => by
    simp [Op.beq, beqNodes_refl xs, Node.beq_refl x, beqBinding?_refl s]
  | .binding b => by simp [Op.beq, Binding.beq_refl b]
  | .withMetadata x y => by simp [Op.beq, Node.beq_refl x, Node.beq_refl y]
  | .case t xs d _ _ _ _ c => by
    simp [Op.beq, Node.beq_refl t, beqNodes_refl xs, Node.beq_refl d, beqForm?_refl c]
  | .caseBranch xs x => by simp [Op.beq, beqNodes_refl xs, Node.beq_refl x]

theorem Node.beq_refl : ∀ n : Node, n.beq n = true
  | ⟨op, form, env, _⟩ => by
    simp [Node.beq, Op.beq_refl op, Form.beq_refl form, Env.beq_refl env]

theorem beqNode?_refl : ∀ n : Option Node, beqNode? n n = true
  | none => by simp [beqNode?]
  | some n => by simp [beqNode?, Node.beq_refl n]

theorem beqNodes_refl : ∀ ns : List Node, beqNodes ns ns = true
  | [] => by simp [beqNodes]
  | n :: ns => by simp [beqNodes, Node.beq_refl n, beqNodes_refl ns]

theorem beqBinding?_refl : ∀ b : Option Binding, beqBinding? b b = true
  | none => by simp [beqBinding?]
  | some b => by simp [beqBinding?, Binding.beq_refl b]

theorem beqBindings_refl : ∀ bs : List Binding, beqBindings bs bs = true
  | [] => by simp [beqBindings]
  | b :: bs => by simp [beqBindings, Binding.beq_refl b, beqBindings_refl bs]

end

theorem Node.beq_addExpandedFrom (n n' : Node) (f f' : Form) :
    (n.addExpandedFrom f).beq (n'.addExpandedFrom f') = n.beq n' := by
  cases n
  cases n'
  simp [Node.addExpandedFrom, Node.beq]

theorem Node.beq_expandedFrom (n : Node) (forms : List Form) :
    ({ n with expandedFrom := forms } == n) = true := by
  obtain ⟨op, form, env, raw⟩ := n
  change Node.beq ⟨op, form, env, forms⟩ ⟨op, form, env, raw⟩ = true
  simp [Node.beq, Op.beq_refl op, Form.beq_refl form, Env.beq_refl env]

end LispFront
