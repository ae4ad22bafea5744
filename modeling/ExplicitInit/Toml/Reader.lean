namespace ExplicitInit.Toml

/-- Reads a value from the front of a text and gives the rest, or fails. -/
abbrev Reader := StateT (List Char) Option

namespace Reader

def satisfying (p : Char → Bool) : Reader Char
  | c :: rest => if p c then some (c, rest) else none
  | [] => none

def exactly (c : Char) : Reader Unit :=
  discard (satisfying (· == c))

def literal : List Char → Reader Unit
  | [] => pure ()
  | c :: cs => do
    exactly c
    literal cs

def aheadIs (p : Char → Bool) : Reader Unit
  | c :: rest => if p c then some ((), c :: rest) else none
  | [] => none

def atEnd : Reader Unit
  | [] => some ((), [])
  | _ => none

def span (p : Char → Bool) : Reader (List Char) :=
  fun text => some (text.takeWhile p, text.dropWhile p)

def span1 (p : Char → Bool) : Reader (List Char) := do
  aheadIs p
  span p

def repeated {α : Type} (r : Reader α) (text : List Char) : List α × List Char :=
  match r text with
  | none => ([], text)
  | some (a, rest) =>
    if rest.length < text.length then
      let (as, rest') := repeated r rest
      (a :: as, rest')
    else ([], text)
termination_by text.length

def many {α : Type} (r : Reader α) : Reader (List α) :=
  fun text => some (repeated r text)

def separated1 {α : Type} (separator : Reader Unit) (r : Reader α) : Reader (List α) := do
  let a ← r
  let as ← many (separator *> r)
  return a :: as

def separated {α : Type} (separator : Reader Unit) (r : Reader α) : Reader (List α) :=
  separated1 separator r <|> pure []

def exactlyMany (p : Char → Bool) : Nat → Reader (List Char)
  | 0 => pure []
  | n + 1 => do
    let c ← satisfying p
    let cs ← exactlyMany p n
    return c :: cs

end Reader

end ExplicitInit.Toml
