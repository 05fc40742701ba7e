import LispFront.Form.Order
import LispFront.Tree.Basic

/-!
# Equality of trees

Nodes are equal if their operators, forms and environments are. Metadata of forms and vars does not
count, nor do the forms that a node was expanded from. The metadata of a call is an operand and
counts as a map of forms.
-/

namespace LispFront

def Var.beq (a b : Var) : Bool := a.id == b.id

def beqForm? : Option Form → Option Form → Bool
  | none, none => true
  | some a, some b => a.beq b
  | _, _ => false

mutual

def Binding.beq : Binding → Binding → Bool
  | ⟨name, kind, init, argId, variadic, assignable⟩,
    ⟨name', kind', init', argId', variadic', assignable'⟩ =>
    name == name' && kind == kind' && argId == argId' && variadic == variadic' &&
      assignable == assignable' && beqNode? init init'

def Env.beq : Env → Env → Bool
  | ⟨locals, context, ns, loopId, loopArity, inTry, once, topLevel, self⟩,
    ⟨locals', context', ns', loopId', loopArity', inTry', once', topLevel', self'⟩ =>
    context == context' && ns == ns' && loopId == loopId' && loopArity == loopArity' &&
      inTry == inTry' && once == once' && topLevel == topLevel' && beqBinding? self self' &&
      beqBindings locals locals'

def Op.beq (a b : Op) : Bool :=
  match a with
  | .const k v m =>
    match b with | .const k' v' m' => k == k' && v.beq v' && beqNode? m m' | _ => false
  | .vector xs => match b with | .vector ys => beqNodes xs ys | _ => false
  | .map ks vs => match b with | .map ks' vs' => beqNodes ks ks' && beqNodes vs vs' | _ => false
  | .set xs => match b with | .set ys => beqNodes xs ys | _ => false
  | .localRef x => match b with | .localRef y => x.beq y | _ => false
  | .varRef x => match b with | .varRef y => x.beq y | _ => false
  | .theVar x => match b with | .theVar y => x.beq y | _ => false
  | .hostForm c f => match b with | .hostForm c' f' => c == c' && f == f' | _ => false
  | .classRef c => match b with | .classRef c' => c == c' | _ => false
  | .invoke f xs m =>
    match b with
    | .invoke g ys n => f.beq g && beqNodes xs ys && FormMap.beq m n
    | _ => false
  | .sequence xs r o =>
    match b with | .sequence ys r' o' => beqNodes xs ys && r.beq r' && o == o' | _ => false
  | .branch x y z =>
    match b with | .branch x' y' z' => x.beq x' && y.beq y' && z.beq z' | _ => false
  | .new c xs => match b with | .new c' ys => c.beq c' && beqNodes xs ys | _ => false
  | .quote x => match b with | .quote y => x.beq y | _ => false
  | .assign x y => match b with | .assign x' y' => x.beq x' && y.beq y' | _ => false
  | .tryBlock x cs f =>
    match b with
    | .tryBlock x' cs' f' => x.beq x' && beqNodes cs cs' && beqNode? f f'
    | _ => false
  | .handler x y z =>
    match b with | .handler x' y' z' => x.beq x' && y.beq y' && z.beq z' | _ => false
  | .throw x => match b with | .throw y => x.beq y | _ => false
  | .define v d m i =>
    match b with
    | .define v' d' m' i' => v.beq v' && d == d' && beqNode? m m' && beqNode? i i'
    | _ => false
  | .hostCall x m xs =>
    match b with | .hostCall y m' ys => x.beq y && m == m' && beqNodes xs ys | _ => false
  | .hostField x f => match b with | .hostField y f' => x.beq y && f == f' | _ => false
  | .hostMember x f => match b with | .hostMember y f' => x.beq y && f == f' | _ => false
  | .letBlock xs x => match b with | .letBlock ys y => beqNodes xs ys && x.beq y | _ => false
  | .letfnBlock xs x => match b with | .letfnBlock ys y => beqNodes xs ys && x.beq y | _ => false
  | .loop i xs x =>
    match b with | .loop j ys y => i == j && beqNodes xs ys && x.beq y | _ => false
  | .recur i xs => match b with | .recur j ys => i == j && beqNodes xs ys | _ => false
  | .fn s xs v m o =>
    match b with
    | .fn s' ys v' m' o' => beqNode? s s' && beqNodes xs ys && v == v' && m == m' && o == o'
    | _ => false
  | .method i xs f v x s =>
    match b with
    | .method j ys f' v' y s' =>
      i == j && beqNodes xs ys && f == f' && v == v' && x.beq y && beqBinding? s s'
    | _ => false
  | .binding x => match b with | .binding y => x.beq y | _ => false
  | .withMetadata x y => match b with | .withMetadata x' y' => x.beq x' && y.beq y' | _ => false
  | .case t xs d s m w k c =>
    match b with
    | .case t' ys d' s' m' w' k' c' =>
      t.beq t' && beqNodes xs ys && d.beq d' && s == s' && m == m' && w == w' && k == k' &&
        beqForm? c c'
    | _ => false
  | .caseBranch xs x => match b with | .caseBranch ys y => beqNodes xs ys && x.beq y | _ => false

def Node.beq : Node → Node → Bool
  | ⟨op, form, env, _⟩, ⟨op', form', env', _⟩ => op.beq op' && form.beq form' && env.beq env'

def beqNode? : Option Node → Option Node → Bool
  | none, none => true
  | some a, some b => a.beq b
  | _, _ => false

def beqNodes : List Node → List Node → Bool
  | [], [] => true
  | a :: as, b :: bs => a.beq b && beqNodes as bs
  | _, _ => false

def beqBinding? : Option Binding → Option Binding → Bool
  | none, none => true
  | some a, some b => a.beq b
  | _, _ => false

def beqBindings : List Binding → List Binding → Bool
  | [], [] => true
  | a :: as, b :: bs => a.beq b && beqBindings as bs
  | _, _ => false

end

instance : BEq Env := ⟨Env.beq⟩

instance : BEq Op := ⟨Op.beq⟩

instance : BEq Node := ⟨Node.beq⟩

end LispFront
