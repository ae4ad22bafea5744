import ExplicitInit.Binary64

namespace ExplicitInit

structure Decimal where
  digits : Nat
  exponent : Int
deriving DecidableEq

namespace Decimal

def decimalOver (d : Nat) (k e : Int) : Nat :=
  d * Nat.pow 10 k.toNat * Nat.pow 2 (-e).toNat

def binaryOver (n : Nat) (k e : Int) : Nat :=
  n * Nat.pow 2 e.toNat * Nat.pow 10 (-k).toNat

/-- Whether `d * 10 ^ k` lies nearer to the number than to its neighbours. A point midway between
two neighbours belongs to the one whose significand is even. -/
def readsAs (x : Binary64) (d : Nat) (k : Int) : Bool :=
  let e := x.scale - 2
  let value := decimalOver d k e
  let low := binaryOver (4 * x.significand - if x.hasNarrowGapBelow then 1 else 2) k e
  let high := binaryOver (4 * x.significand + 2) k e
  if x.significand % 2 = 0 then low ≤ value && value ≤ high else low < value && value < high

def below (x : Binary64) (k : Int) : Nat :=
  binaryOver x.significand k x.scale / decimalOver 1 k x.scale

def isNearerBelow (x : Binary64) (k : Int) : Bool :=
  2 * binaryOver x.significand k x.scale < decimalOver (2 * below x k + 1) k x.scale

def onGrid? (x : Binary64) (k : Int) : Option Decimal :=
  let d := below x k
  match readsAs x d k, readsAs x (d + 1) k with
  | true, true => some ⟨if isNearerBelow x k then d else d + 1, k⟩
  | true, false => some ⟨d, k⟩
  | false, true => some ⟨d + 1, k⟩
  | false, false => none

/-- The multiple of the largest possible power of ten that reads back as the number. Powers from
`10 ^ 308` down to `10 ^ -324` cover every finite number. -/
def shortest (x : Binary64) : Decimal :=
  ((List.range 633).findSome? fun (i : Nat) => onGrid? x (308 - i)).getD ⟨0, 0⟩

end Decimal

end ExplicitInit
