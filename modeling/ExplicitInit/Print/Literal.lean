import ExplicitInit.Decimal.Positional
import ExplicitInit.Text.Utf16

namespace ExplicitInit.Print

/-- A floating-point number with the fewest digits that read back, never with an exponent. -/
def float (x : Binary64) : String :=
  if x.isNaN then "NaN"
  else
    let size :=
      if x.isInfinite then "inf"
      else if x.isZero then "0"
      else (Decimal.shortest x).positional
    if x.isNegative then "-" ++ size else size

def bool : Bool → String
  | true => "YES"
  | false => "NO"

def hex (u : UInt16) : List Char :=
  [u.toNat / 0x1000 % 16, u.toNat / 0x100 % 16, u.toNat / 0x10 % 16, u.toNat % 16].map
    Nat.digitChar

/-- A printable ASCII character stands in quotes, any other code unit is a number. -/
def char (u : UInt16) : String :=
  if 0x20 ≤ u && u ≤ 0x7e then String.ofList ['\'', Char.ofNat u.toNat, '\'']
  else String.ofList ('0' :: 'x' :: hex u)

def escaped : Utf16.Piece → List Char
  | .char '"' => ['\\', '"']
  | .char '\\' => ['\\', '\\']
  | .char '\n' => ['\\', 'n']
  | .char '\t' => ['\\', 't']
  | .char '\r' => ['\\', 'r']
  | .char c => [c]
  | .lone u => '\\' :: 'u' :: hex u

def quoted (units : List UInt16) : List Char :=
  '@' :: '"' :: (Utf16.pieces units).flatMap escaped ++ ['"']

def string (units : List UInt16) : String :=
  String.ofList (quoted units)

def unitString (units : List UInt16) : String :=
  let numbers := units.map fun u => "(int) 0x" ++ String.ofList (hex u)
  "[NSString stringWithCharacters:(unichar[]) \x7b " ++ String.intercalate ", " numbers ++
    " \x7d length:" ++ toString units.length ++ "]"

end ExplicitInit.Print
