namespace ExplicitInit

structure Summary where
  constructorAdded : Bool
  constructorsLowered : Nat
  /-- Statements of the instance preamble, with the assignment of the enclosing instance. -/
  instanceMoved : Nat
  staticMoved : Nat
  literalsRespelled : Nat
deriving DecidableEq

namespace Summary

def zero : Summary :=
  ⟨false, 0, 0, 0, 0⟩

instance : Inhabited Summary := ⟨zero⟩

def isZero (s : Summary) : Bool :=
  s == zero

end Summary

end ExplicitInit
