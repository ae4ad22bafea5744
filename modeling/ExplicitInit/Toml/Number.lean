import ExplicitInit.Toml.Text
import ExplicitInit.Toml.Value

namespace ExplicitInit.Toml

open Reader

def digitsOf (p : Char → Bool) : Reader (List Char) := do
  let c ← satisfying p
  let cs ← many (satisfying p <|> (exactly '_' *> satisfying p))
  return c :: cs

def isOctalDigit (c : Char) : Bool :=
  '0' ≤ c && c ≤ '7'

def isBinaryDigit (c : Char) : Bool :=
  c == '0' || c == '1'

def isSign (c : Char) : Bool :=
  c == '+' || c == '-'

def decimalDigits : Reader (List Char) :=
  (aheadIs (fun c => c.isDigit && c != '0') *> digitsOf Char.isDigit) <|>
  (List.singleton <$> satisfying Char.isDigit)

def integerInRange (n : Int) : Reader Value :=
  if Int64.minValue.toInt ≤ n ∧ n ≤ Int64.maxValue.toInt then return .integer n else failure

def prefixedInteger (mark : Char) (base : Nat) (p : Char → Bool) : Reader Value := do
  literal ['0', mark]
  let ds ← digitsOf p
  integerInRange (ofDigits base ds)

def decimalInteger : Reader Value := do
  let sign ← optional (satisfying isSign)
  let ds ← decimalDigits
  let n : Int := ofDigits 10 ds
  integerInRange (if sign = some '-' then -n else n)

def integer : Reader Value :=
  fun
    | '0' :: 'x' :: rest => prefixedInteger 'x' 16 isHexDigit ('0' :: 'x' :: rest)
    | '0' :: 'o' :: rest => prefixedInteger 'o' 8 isOctalDigit ('0' :: 'o' :: rest)
    | '0' :: 'b' :: rest => prefixedInteger 'b' 2 isBinaryDigit ('0' :: 'b' :: rest)
    | text => decimalInteger text

/-- Whether `digits * 10 ^ exponent` rounds to infinity in double precision. Numbers of which the
count of digits tells are not written out. -/
def overflows (digits : List Char) (exponent : Int) : Bool :=
  let significant := digits.dropWhile (· == '0')
  let magnitude := significant.length + exponent
  if significant.isEmpty || magnitude < 300 then false
  else if 310 < magnitude then true
  else
    let limit := Nat.pow 2 1024 - Nat.pow 2 970
    limit * Nat.pow 10 (-exponent).toNat ≤ ofDigits 10 significant * Nat.pow 10 exponent.toNat

def exponentPart : Reader Int := do
  discard (satisfying fun c => c == 'e' || c == 'E')
  let sign ← optional (satisfying isSign)
  let n : Int := ofDigits 10 (← digitsOf Char.isDigit)
  return if sign = some '-' then -n else n

def fractionPart : Reader (List Char) :=
  exactly '.' *> digitsOf Char.isDigit

def floatTail : Reader (List Char × Int) :=
  (do
    let e ← exponentPart
    return ([], e)) <|>
  (do
    let fraction ← fractionPart
    let e ← optional exponentPart
    return (fraction, e.getD 0))

/-- A number with a fraction or an exponent. One too large for double precision is refused, unless
it is negative. -/
def decimalFloat : Reader Value := do
  let sign ← optional (satisfying isSign)
  let whole ← decimalDigits
  let (fraction, e) ← floatTail
  if sign ≠ some '-' ∧ overflows (whole ++ fraction) (e - fraction.length) then failure
  else return .float

def specialFloat : Reader Value := do
  discard (optional (satisfying isSign))
  literal ['i', 'n', 'f'] <|> literal ['n', 'a', 'n']
  return .float

def float : Reader Value :=
  decimalFloat <|> specialFloat

def twoDigits (low high : Nat) : Reader Nat := do
  let n := ofDigits 10 (← exactlyMany Char.isDigit 2)
  if low ≤ n ∧ n ≤ high then return n else failure

def isLeapYear (year : Nat) : Bool :=
  year % 4 == 0 && (year % 100 != 0 || year % 400 == 0)

def daysIn (year : Nat) : Nat → Nat
  | 2 => if isLeapYear year then 29 else 28
  | 4 | 6 | 9 | 11 => 30
  | _ => 31

def day : Reader Unit := do
  let year := ofDigits 10 (← exactlyMany Char.isDigit 4)
  exactly '-'
  let month ← twoDigits 1 12
  exactly '-'
  discard (twoDigits 1 (daysIn year month))

def time : Reader Unit := do
  discard (twoDigits 0 23)
  exactly ':'
  discard (twoDigits 0 59)
  exactly ':'
  discard (twoDigits 0 60)
  discard (optional (exactly '.' *> span1 Char.isDigit))

def zone : Reader Unit :=
  discard (satisfying fun c => c == 'Z' || c == 'z') <|>
  (do
    discard (satisfying isSign)
    discard (twoDigits 0 23)
    exactly ':'
    discard (twoDigits 0 59))

def date : Reader Value :=
  (do
    day
    discard (optional (do
      discard (satisfying fun c => c == 'T' || c == 't' || c == ' ')
      time
      discard (optional zone)))
    return .date) <|>
  (time *> pure .date)

end ExplicitInit.Toml
