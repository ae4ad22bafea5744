import ExplicitInit.Decimal.Shortest

namespace ExplicitInit.Decimal

/-- The digits of a decimal in their places: zeros are filled in up to the point, the point is left
out when no digit follows it, and one zero stands before it when nothing else does. -/
def positional (d : Decimal) : String :=
  let digits := Nat.toDigits 10 d.digits
  if 0 ≤ d.exponent then
    String.ofList (digits ++ List.replicate d.exponent.toNat '0')
  else
    let places := (-d.exponent).toNat
    let padded := List.replicate (places + 1 - digits.length) '0' ++ digits
    let whole := padded.length - places
    String.ofList (padded.take whole ++ '.' :: padded.drop whole)

end ExplicitInit.Decimal
