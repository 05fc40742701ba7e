import LispFront.Tree.Basic

/-!
# The children of a node

Operands sit in named slots, in the order in which they are evaluated. A slot holds one node or a
list of them; an operand that may be absent has no slot when it is. Every node below a node is
smaller than it, so recursion over trees may go through the slots.
-/

namespace LispFront

inductive Slot where
  | args | bindings | body | catches | cls | default | els | exception | expr | exprs | finally
  | fn | init | items | keys | «local» | metadata | methods | nodes | params | ret | statements
  | target | test | tests | then | val | vals
deriving DecidableEq, Repr

def Slot.text : Slot → String
  | .args => "args"
  | .bindings => "bindings"
  | .body => "body"
  | .catches => "catches"
  | .cls => "class"
  | .default => "default"
  | .els => "else"
  | .exception => "exception"
  | .expr => "expr"
  | .exprs => "exprs"
  | .finally => "finally"
  | .fn => "fn"
  | .init => "init"
  | .items => "items"
  | .keys => "keys"
  | .local => "local"
  | .metadata => "meta"
  | .methods => "methods"
  | .nodes => "nodes"
  | .params => "params"
  | .ret => "ret"
  | .statements => "statements"
  | .target => "target"
  | .test => "test"
  | .tests => "tests"
  | .then => "then"
  | .val => "val"
  | .vals => "vals"

inductive Child where
  | one (node : Node)
  | many (nodes : List Node)

def Child.nodes : Child → List Node
  | .one n => [n]
  | .many ns => ns

def Slot.opt (s : Slot) : Option Node → List (Slot × Child)
  | none => []
  | some n => [(s, .one n)]

def Op.children : Op → List (Slot × Child)
  | .const _ _ metadata => Slot.metadata.opt metadata
  | .vector items | .set items => [(.items, .many items)]
  | .map keys vals => [(.keys, .many keys), (.vals, .many vals)]
  | .localRef _ | .varRef _ | .theVar _ | .hostForm .. | .classRef _ => []
  | .invoke callee args _ => [(.fn, .one callee), (.args, .many args)]
  | .sequence statements ret _ => [(.statements, .many statements), (.ret, .one ret)]
  | .branch test onTrue onFalse => [(.test, .one test), (.then, .one onTrue), (.els, .one onFalse)]
  | .new cls args => [(.cls, .one cls), (.args, .many args)]
  | .quote expr => [(.expr, .one expr)]
  | .assign target val => [(.target, .one target), (.val, .one val)]
  | .tryBlock body catches cleanup =>
    (.body, .one body) :: (.catches, .many catches) :: Slot.finally.opt cleanup
  | .handler cls caught body => [(.cls, .one cls), (.local, .one caught), (.body, .one body)]
  | .throw exception => [(.exception, .one exception)]
  | .define _ _ metadata init => Slot.metadata.opt metadata ++ Slot.init.opt init
  | .hostCall target _ args => [(.target, .one target), (.args, .many args)]
  | .hostField target _ | .hostMember target _ => [(.target, .one target)]
  | .letBlock bindings body | .letfnBlock bindings body | .loop _ bindings body =>
    [(.bindings, .many bindings), (.body, .one body)]
  | .recur _ exprs => [(.exprs, .many exprs)]
  | .fn self methods .. => Slot.local.opt self ++ [(.methods, .many methods)]
  | .method _ params _ _ body _ => [(.params, .many params), (.body, .one body)]
  | .binding b => Slot.init.opt b.init
  | .withMetadata metadata expr => [(.metadata, .one metadata), (.expr, .one expr)]
  | .case test branches default .. =>
    [(.test, .one test), (.nodes, .many branches), (.default, .one default)]
  | .caseBranch tests body => [(.tests, .many tests), (.then, .one body)]

namespace Node

def children (n : Node) : List (Slot × Child) := n.op.children

def childNodes (n : Node) : List Node := n.children.flatMap fun c => c.2.nodes

private theorem sizeOf_append (a b : List Node) :
    sizeOf (a ++ b) = sizeOf a + sizeOf b - 1 := by
  induction a with
  | nil => simp
  | cons x l ih =>
    have : 0 < sizeOf l := by cases l <;> simp +arith
    simp only [List.cons_append, List.cons.sizeOf_spec, ih]
    omega

theorem sizeOf_childNodes_lt (n : Node) : sizeOf n.childNodes < sizeOf n := by
  rcases n with ⟨op, form, env, raw⟩
  have hf : 0 < sizeOf form := by cases form <;> simp +arith
  have he : 0 < sizeOf env := by cases env; simp +arith
  have hr : 0 < sizeOf raw := by cases raw <;> simp +arith
  cases op with
  | const _ _ metadata =>
    cases metadata <;> simp [childNodes, children, Op.children, Slot.opt, Child.nodes] <;> omega
  | tryBlock _ _ cleanup =>
    cases cleanup <;>
      simp [childNodes, children, Op.children, Slot.opt, Child.nodes, sizeOf_append] <;> omega
  | define _ _ metadata init =>
    cases metadata <;> cases init <;>
      simp [childNodes, children, Op.children, Slot.opt, Child.nodes] <;> omega
  | fn self =>
    cases self <;> simp [childNodes, children, Op.children, Slot.opt, Child.nodes] <;> omega
  | binding b =>
    rcases b with ⟨_, _, init⟩
    cases init
    · simp [childNodes, children, Op.children, Slot.opt]
      omega
    · simp [childNodes, children, Op.children, Slot.opt, Child.nodes]
      omega
  | _ =>
    simp [childNodes, children, Op.children, Child.nodes, sizeOf_append]
    omega

theorem sizeOf_lt_of_mem_childNodes {n m : Node} (h : m ∈ n.childNodes) : sizeOf m < sizeOf n :=
  Nat.lt_trans (List.sizeOf_lt_of_mem h) (sizeOf_childNodes_lt n)

theorem mem_childNodes {n m : Node} {c : Slot × Child} (hc : c ∈ n.children)
    (hm : m ∈ c.2.nodes) : m ∈ n.childNodes :=
  List.mem_flatMap.2 ⟨c, hc, hm⟩

def walkStack : List Node → List Node
  | [] => []
  | n :: stack => n :: walkStack (n.childNodes ++ stack)
termination_by stack => sizeOf stack
decreasing_by
  have := sizeOf_childNodes_lt n
  simp [sizeOf_append]
  omega

def walk (n : Node) : List Node := walkStack [n]

end Node

end LispFront
