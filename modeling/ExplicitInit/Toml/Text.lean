import ExplicitInit.Toml.Reader

namespace ExplicitInit.Toml

open Reader

def isBlank (c : Char) : Bool :=
  c == ' ' || c == '\t'

def blanks : Reader Unit :=
  discard (span isBlank)

def newline : Reader Unit :=
  exactly '\n' <|> literal ['\r', '\n']

def isPlain (c : Char) : Bool :=
  c == '\t' || (0x20 ≤ c.toNat && c.toNat != 0x7f)

def comment : Reader Unit := do
  exactly '#'
  discard (span isPlain)

def lineEnd : Reader Unit := do
  blanks
  discard (optional comment)
  newline <|> atEnd

def gap : Reader Unit :=
  discard (many (discard (satisfying isBlank) <|> newline <|> (comment *> newline)))

def ofDigits (base : Nat) (digits : List Char) : Nat :=
  digits.foldl (fun n c => n * base + digitValue c) 0
where
  digitValue (c : Char) : Nat :=
    if c.isDigit then c.toNat - '0'.toNat
    else if 'a'.toNat ≤ c.toNat then c.toNat - 'a'.toNat + 10
    else c.toNat - 'A'.toNat + 10

def isHexDigit (c : Char) : Bool :=
  c.isDigit || ('a' ≤ c && c ≤ 'f') || ('A' ≤ c && c ≤ 'F')

def numberedChar (digits : Nat) : Reader Char := do
  let n := ofDigits 16 (← exactlyMany isHexDigit digits)
  if n.isValidChar then return Char.ofNat n else failure

def escapeChar : Reader Char :=
  fun
    | 'b' :: rest => some (Char.ofNat 8, rest)
    | 't' :: rest => some ('\t', rest)
    | 'n' :: rest => some ('\n', rest)
    | 'f' :: rest => some (Char.ofNat 12, rest)
    | 'r' :: rest => some ('\r', rest)
    | '"' :: rest => some ('"', rest)
    | '\\' :: rest => some ('\\', rest)
    | 'u' :: rest => numberedChar 4 rest
    | 'U' :: rest => numberedChar 8 rest
    | _ => none

def escape : Reader Char :=
  exactly '\\' *> escapeChar

def isBasic (c : Char) : Bool :=
  isPlain c && c != '"' && c != '\\'

def isLiteral (c : Char) : Bool :=
  isPlain c && c != '\''

def basicString : Reader String := do
  exactly '"'
  let cs ← many (satisfying isBasic <|> escape)
  exactly '"'
  return String.ofList cs

def literalString : Reader String := do
  exactly '\''
  let cs ← span isLiteral
  exactly '\''
  return String.ofList cs

/-- A backslash at the end of a line takes away the line end and the blanks and lines after it. -/
def foldedLines : Reader (List Char) := do
  exactly '\\'
  blanks
  newline
  discard (many (discard (satisfying isBlank) <|> newline))
  return []

def innerQuotes (quote : Char) : Reader (List Char) :=
  (do
    literal [quote, quote]
    aheadIs (· != quote)
    return [quote, quote]) <|>
  (do
    exactly quote
    aheadIs (· != quote)
    return [quote])

/-- Three quotes that close a string; up to two quotes just before them belong to it. -/
def closingQuotes (quote : Char) : Reader (List Char) :=
  (literal [quote, quote, quote, quote, quote] *> pure [quote, quote]) <|>
  (literal [quote, quote, quote, quote] *> pure [quote]) <|>
  (literal [quote, quote, quote] *> pure [])

def multilineString (quote : Char) (content : Reader (List Char)) : Reader String := do
  literal [quote, quote, quote]
  discard (optional newline)
  let parts ← many (content <|> (newline *> pure ['\n']) <|> innerQuotes quote)
  let last ← closingQuotes quote
  return String.ofList (parts.flatten ++ last)

def string : Reader String :=
  multilineString '"' (span1 isBasic <|> foldedLines <|> (List.singleton <$> escape)) <|>
  basicString <|>
  multilineString '\'' (span1 isLiteral) <|>
  literalString

def isBareKey (c : Char) : Bool :=
  c.isAlphanum || c == '_' || c == '-'

def simpleKey : Reader String :=
  basicString <|> literalString <|> (String.ofList <$> span1 isBareKey)

structure Key where
  path : List String
  name : String

def Key.ofParts? (parts : List String) : Option Key :=
  parts.getLast?.map fun name => ⟨parts.dropLast, name⟩

def nestingLimit : Nat := 79

def key : Reader Key := do
  let parts ← separated1 (exactly '.') (blanks *> simpleKey <* blanks)
  if parts.length ≤ nestingLimit then
    match Key.ofParts? parts with
    | some k => return k
    | none => failure
  else failure

end ExplicitInit.Toml
