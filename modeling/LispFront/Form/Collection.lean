import LispFront.Form.Order
import LispFront.Sorted

/-!
# Maps and sets of forms

Keys that are equal as forms are one key, whatever their metadata. Inserting replaces both the key
and its value, so the metadata of the key last inserted is what is kept; a set keeps the element
last inserted.
-/

namespace LispFront

namespace FormMap

def insert (m : FormMap) (k v : Form) : FormMap :=
  Sorted.insert (fun a b => a.1.cmp b.1) (k, v) m

def find? (m : FormMap) (k : Form) : Option Form :=
  (Sorted.find? (fun e => k.cmp e.1) m).map (·.2)

def contains (m : FormMap) (k : Form) : Bool := (m.find? k).isSome

def erase (m : FormMap) (k : Form) : FormMap := Sorted.erase (fun e => k.cmp e.1) m

def merge (m : FormMap) (new : List (Form × Form)) : FormMap :=
  Sorted.insertMany (fun a b => a.1.cmp b.1) new m

def ofList (entries : List (Form × Form)) : FormMap := FormMap.merge [] entries

def cmp (m n : FormMap) : Ordering := Form.cmpEntries m n

def beq (m n : FormMap) : Bool := Form.beqEntries m n

end FormMap

namespace FormSet

def insert (s : FormSet) (a : Form) : FormSet := Sorted.insert Form.cmp a s

def contains (s : FormSet) (a : Form) : Bool := (Sorted.find? a.cmp s).isSome

def ofList (elems : List Form) : FormSet := Sorted.ofList Form.cmp elems

def cmp (s t : FormSet) : Ordering := Form.cmpElems s t

def beq (s t : FormSet) : Bool := Form.beqElems s t

end FormSet

end LispFront
