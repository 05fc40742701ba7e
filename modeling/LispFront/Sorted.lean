/-!
# Sorted lists as finite collections

A collection is a list in strictly increasing order of its keys. A key is never stored apart from
its entry: `insert` compares two entries, and look-up and removal take a probe, the answer of a
fixed key compared with the key of an entry. An entry that compares equal to the inserted one is
replaced as a whole, so of two insertions the later one is what the collection holds.
-/

namespace LispFront.Sorted

variable {α : Type u}

def insert (cmp : α → α → Ordering) (a : α) : List α → List α
  | [] => [a]
  | b :: l =>
    match cmp a b with
    | .lt => a :: b :: l
    | .eq => a :: l
    | .gt => b :: insert cmp a l

/-- Looking stops at the first entry that lies beyond the key. -/
def find? (probe : α → Ordering) : List α → Option α
  | [] => none
  | b :: l =>
    match probe b with
    | .lt => none
    | .eq => some b
    | .gt => find? probe l

def erase (probe : α → Ordering) : List α → List α
  | [] => []
  | b :: l =>
    match probe b with
    | .lt => b :: l
    | .eq => l
    | .gt => b :: erase probe l

def insertMany (cmp : α → α → Ordering) (new : List α) (l : List α) : List α :=
  new.foldl (fun acc a => insert cmp a acc) l

def ofList (cmp : α → α → Ordering) (l : List α) : List α :=
  insertMany cmp l []

@[simp] theorem insert_nil (cmp : α → α → Ordering) (a : α) : insert cmp a [] = [a] := rfl

@[simp] theorem find?_nil (probe : α → Ordering) : find? probe [] = none := rfl

@[simp] theorem erase_nil (probe : α → Ordering) : erase probe ([] : List α) = [] := rfl

@[simp] theorem insertMany_nil (cmp : α → α → Ordering) (l : List α) : insertMany cmp [] l = l :=
  rfl

end LispFront.Sorted
