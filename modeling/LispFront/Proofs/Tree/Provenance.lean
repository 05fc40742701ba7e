import LispFront.Proofs.Tree.Path
import LispFront.Tree.Env

/-!
# Where the nodes of a tree were analyzed

The environment of a node and the operator on it decide the environment of every slot. `Analyzed e
n` says that `n` could come out of an analysis in `e`: its operator fits `e`, and what stands in its
slots was analyzed in the environments of the slots. The environment that a node has stored plays no
part in it, nor does what the node was expanded from.
-/

namespace LispFront

def Node.binder? (n : Node) : Option Binding :=
  match n.op with
  | .binding b => some b
  | _ => none

def binders (nodes : List Node) : List Binding := nodes.filterMap Node.binder?

namespace Op

/-- The environment of what stands at place `i` of a slot. -/
def slotEnv (e : Env) (slot : Slot) (i : Nat) : Op → Env
  | .sequence .. =>
    match slot with
    | .statements => e.withContext .statement
    | .ret => e
    | _ => e.withContext .expr
  | .branch .. =>
    match slot with
    | .then | .els => e
    | _ => e.withContext .expr
  | .new .. =>
    match slot with
    | .cls => e.withoutLocals
    | _ => e.withContext .expr
  | .tryBlock .. =>
    match slot with
    | .body => e.enterTry
    | .finally => (e.withContext .statement).leaveTry
    | _ => e.enterTry.withContext .expr
  | .handler _ caught _ =>
    match slot with
    | .cls => e.leaveTry.withoutLocals.withContext .expr
    | .body => (e.leaveTry.bindMany (binders [caught])).withContext .expr
    | _ => e.leaveTry.withContext .expr
  | .letBlock bindings _ =>
    match slot with
    | .bindings => (e.bindMany (binders (bindings.take i))).withContext .expr
    | .body => e.bindMany (binders bindings)
    | _ => e.withContext .expr
  | .letfnBlock bindings _ =>
    match slot with
    | .bindings => (e.bindMany ((binders bindings).map .withoutInit)).withContext .expr
    | .body => e.bindMany (binders bindings)
    | _ => e.withContext .expr
  | .loop id bindings _ =>
    match slot with
    | .bindings => ((e.withLoopId id).bindMany (binders (bindings.take i))).withContext .expr
    | .body =>
      ((((e.withLoopId id).bindMany (binders bindings)).withContext .ret).withLoop id
        bindings.length).leaveTry
    | _ => e.withContext .expr
  | .fn self _ _ _ once =>
    match slot with
    | .methods =>
      (match self.bind Node.binder? with
        | some b => (e.bind b).withSelf b
        | none => e).leaveTry.withOnce once
    | _ => e.withContext .expr
  | .method id params .. =>
    match slot with
    | .body => ((e.withoutSelf.bindMany (binders params)).withContext .ret).withLoop id params.length
    | _ => e.withContext .expr
  | .case .. =>
    match slot with
    | .nodes | .default => e
    | _ => e.withContext .expr
  | .caseBranch .. =>
    match slot with
    | .then => e
    | _ => e.withContext .expr
  | _ => e.withContext .expr

/-- What an operator on a form owes to the environment of its node. -/
def Fits (e : Env) (form : Form) : Op → Prop
  | .localRef b => ∃ s m, form = .symbol s m ∧ (e.local? s).map Binding.withoutInit = some b
  | .varRef _ | .hostForm .. | .classRef _ => ∃ s m, form = .symbol s m ∧ e.local? s = none
  | .recur id exprs =>
    e.context = .ret ∧ e.inTry = false ∧ e.loopId = some id ∧ e.loopArity = some exprs.length
  | .fn _ methods .. => ∀ m ∈ methods, m.op.isMethod
  | .case _ branches .. => ∀ b ∈ branches, b.op.isCaseBranch
  | _ => True

end Op

inductive Analyzed : Env → Node → Prop where
  | intro {e : Env} {n : Node} : n.op.Fits e n.form →
      (∀ slot i m, n.Holds slot i m → Analyzed (n.op.slotEnv e slot i) m) → Analyzed e n

namespace Analyzed

theorem fits {e : Env} {n : Node} (h : Analyzed e n) : n.op.Fits e n.form := by
  cases h with
  | intro hn _ => exact hn

theorem inSlots {e : Env} {n m : Node} {slot : Slot} {i : Nat} (h : Analyzed e n)
    (hm : n.Holds slot i m) : Analyzed (n.op.slotEnv e slot i) m := by
  cases h with
  | intro _ hs => exact hs slot i m hm

def InSlot (e : Nat → Env) : Child → Prop
  | .one n => Analyzed (e 0) n
  | .many ns => ∀ i m, ns[i]? = some m → Analyzed (e i) m

def InSlots (e : Env) (op : Op) : List (Slot × Child) → Prop
  | [] => True
  | (slot, c) :: slots => InSlot (fun i => op.slotEnv e slot i) c ∧ InSlots e op slots

theorem inSlot_getElem? {e : Nat → Env} {c : Child} {i : Nat} {m : Node} (h : InSlot e c)
    (hm : c.nodes[i]? = some m) : Analyzed (e i) m := by
  cases c with
  | one n =>
    have hi : i < 1 := (List.getElem?_eq_some_iff.mp hm).1
    obtain rfl : i = 0 := by omega
    cases hm
    exact h
  | many ns => exact h i m hm

theorem inSlots_mem {e : Env} {op : Op} {slots : List (Slot × Child)} {slot : Slot} {c : Child}
    (h : InSlots e op slots) (hc : (slot, c) ∈ slots) :
    InSlot (fun i => op.slotEnv e slot i) c := by
  induction slots with
  | nil => cases hc
  | cons s slots ih =>
    cases hc with
    | head => exact h.1
    | tail _ hc => exact ih h.2 hc

theorem InSlots.append {e : Env} {op : Op} {a b : List (Slot × Child)} (ha : InSlots e op a)
    (hb : InSlots e op b) : InSlots e op (a ++ b) := by
  induction a with
  | nil => exact hb
  | cons s a ih => exact ⟨ha.1, ih ha.2⟩

theorem InSlots.opt {e : Env} {op : Op} {slot : Slot} {o : Option Node}
    (h : ∀ n ∈ o, Analyzed (op.slotEnv e slot 0) n) : InSlots e op (slot.opt o) := by
  cases o with
  | none => trivial
  | some n => exact ⟨h n rfl, trivial⟩

theorem of_slots {e : Env} {n : Node} (hn : n.op.Fits e n.form)
    (hs : InSlots e n.op n.op.children) : Analyzed e n := by
  refine .intro hn fun slot i m hm => ?_
  obtain ⟨c, hc, hi⟩ := hm
  exact inSlot_getElem? (inSlots_mem hs hc) hi

theorem InSlot.many {e : Env} {ns : List Node} (h : ∀ n ∈ ns, Analyzed e n) :
    InSlot (fun _ => e) (.many ns) :=
  fun _ m hm => h m (List.mem_of_getElem? hm)

theorem expandedFrom {e : Env} {n : Node} (f : Form) (h : Analyzed e n) :
    Analyzed e (n.addExpandedFrom f) := by
  cases h with
  | intro hn hs => exact .intro hn hs

theorem restored {e e' : Env} {n : Node} (h : Analyzed e n) : Analyzed e { n with env := e' } := by
  cases h with
  | intro hn hs => exact .intro hn hs

end Analyzed

end LispFront
