import LispFront.Form.Basic

/-!
# Order and equality of forms

Both look through metadata at every depth. Forms of different kinds are ordered by kind, forms of
one kind by what they hold: lists and vectors element by element, maps and sets by their sorted
entries, a proper initial part before the whole. Equality is a recursion of its own and does not go
through the order.
-/

namespace LispFront.Form

def rank : Form → Nat
  | .nil => 0
  | .bool _ => 1
  | .number _ => 2
  | .string _ => 3
  | .char _ => 4
  | .keyword _ => 5
  | .symbol .. => 6
  | .regex _ => 7
  | .list .. => 8
  | .vector .. => 9
  | .map .. => 10
  | .set .. => 11
  | .var _ => 12

mutual

def cmp (a b : Form) : Ordering :=
  match a with
  | .nil => compare 0 b.rank
  | .bool x => match b with | .bool y => compare x y | b => compare 1 b.rank
  | .number x => match b with | .number y => compare x y | b => compare 2 b.rank
  | .string x => match b with | .string y => compare x y | b => compare 3 b.rank
  | .char x => match b with | .char y => compare x y | b => compare 4 b.rank
  | .keyword x => match b with | .keyword y => x.cmp y | b => compare 5 b.rank
  | .symbol x _ => match b with | .symbol y _ => x.cmp y | b => compare 6 b.rank
  | .regex x => match b with | .regex y => compare x y | b => compare 7 b.rank
  | .list xs _ => match b with | .list ys _ => cmpElems xs ys | b => compare 8 b.rank
  | .vector xs _ => match b with | .vector ys _ => cmpElems xs ys | b => compare 9 b.rank
  | .map xs _ => match b with | .map ys _ => cmpEntries xs ys | b => compare 10 b.rank
  | .set xs _ => match b with | .set ys _ => cmpElems xs ys | b => compare 11 b.rank
  | .var x => match b with | .var y => x.cmp y | b => compare 12 b.rank

def cmpElems : List Form → List Form → Ordering
  | [], [] => .eq
  | [], _ :: _ => .lt
  | _ :: _, [] => .gt
  | x :: xs, y :: ys => (cmp x y).then (cmpElems xs ys)

def cmpEntries : List (Form × Form) → List (Form × Form) → Ordering
  | [], [] => .eq
  | [], _ :: _ => .lt
  | _ :: _, [] => .gt
  | (k, v) :: xs, (k', v') :: ys => ((cmp k k').then (cmp v v')).then (cmpEntries xs ys)

end

mutual

def beq (a b : Form) : Bool :=
  match a with
  | .nil => match b with | .nil => true | _ => false
  | .bool x => match b with | .bool y => x == y | _ => false
  | .number x => match b with | .number y => x == y | _ => false
  | .string x => match b with | .string y => x == y | _ => false
  | .char x => match b with | .char y => x == y | _ => false
  | .keyword x => match b with | .keyword y => x == y | _ => false
  | .symbol x _ => match b with | .symbol y _ => x == y | _ => false
  | .regex x => match b with | .regex y => x == y | _ => false
  | .list xs _ => match b with | .list ys _ => beqElems xs ys | _ => false
  | .vector xs _ => match b with | .vector ys _ => beqElems xs ys | _ => false
  | .map xs _ => match b with | .map ys _ => beqEntries xs ys | _ => false
  | .set xs _ => match b with | .set ys _ => beqElems xs ys | _ => false
  | .var x => match b with | .var y => x == y | _ => false

def beqElems : List Form → List Form → Bool
  | [], [] => true
  | x :: xs, y :: ys => beq x y && beqElems xs ys
  | _, _ => false

def beqEntries : List (Form × Form) → List (Form × Form) → Bool
  | [], [] => true
  | (k, v) :: xs, (k', v') :: ys => beq k k' && beq v v' && beqEntries xs ys
  | _, _ => false

end

instance : BEq Form := ⟨beq⟩

end LispFront.Form
