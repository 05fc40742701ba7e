import LispFront.Form.Print
import LispFront.Tree.Children

/-!
# The outline of a tree

A line for each node and for each slot that holds one, two blanks further in for each level. Behind
the operator's name stands what tells it from others of its kind.
-/

namespace LispFront

def Var.text (v : Var) : String := v.id.text

namespace Op

def detail : Op → String
  | .const kind val _ => " " ++ kind.text ++ " " ++ val.text
  | .localRef b | .binding b => " " ++ b.name.text ++ " (" ++ b.kind.text ++ ")"
  | .varRef v | .theVar v | .define v .. => " " ++ v.text
  | .hostForm cls field => " " ++ cls.text ++ "/" ++ field.text
  | .classRef cls => " " ++ cls.text
  | .hostCall _ called _ => " " ++ called.text
  | .hostField _ field => " -" ++ field.text
  | .hostMember _ member => " " ++ member.text
  | .loop id .. | .recur id _ => " " ++ id.text
  | .method id _ fixed variadic .. =>
    " " ++ id.text ++ " arity " ++ toString fixed ++ if variadic then "+" else ""
  | .sequence _ _ true => " body"
  | .fn _ _ _ _ true => " once"
  | _ => ""

end Op

def outlineLine (level : Nat) (s : String) : String :=
  String.ofList (List.replicate (2 * level) ' ') ++ ":" ++ s ++ "\n"

namespace Node

def outline (level : Nat) (n : Node) : String :=
  outlineLine level (n.op.name ++ n.op.detail) ++
    String.join (n.children.attach.map fun ⟨c, hc⟩ =>
      if c.2.nodes.isEmpty then ""
      else outlineLine (level + 1) c.1.text ++
        String.join (c.2.nodes.attach.map fun ⟨m, hm⟩ =>
          have := sizeOf_lt_of_mem_childNodes (mem_childNodes hc hm)
          m.outline (level + 2)))
termination_by n

def text (n : Node) : String := n.outline 0

end Node

end LispFront
