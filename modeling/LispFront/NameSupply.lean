import LispFront.Symbol

/-!
# Numbered names

A supply numbers the names it gives out, whatever their stems, in 64 bits.
-/

namespace LispFront

structure NameSupply where
  count : UInt64
deriving DecidableEq, Inhabited

namespace NameSupply

def start : NameSupply := ⟨0⟩

def peek (s : NameSupply) (stem : String) : Symbol := .plain (stem ++ toString s.count.toNat)

def advance (s : NameSupply) : NameSupply := ⟨s.count + 1⟩

end NameSupply

end LispFront
