import ExplicitInit.Toml.Number

namespace ExplicitInit.Toml

open Reader

def keyValue (value : Reader Value) : Reader (Key × Value) := do
  let k ← key
  exactly '='
  blanks
  let v ← value
  return (k, v)

def addAll? (pairs : List (Key × Value)) (es : Entries) : Option Entries :=
  pairs.foldlM (fun es (k, v) => Entries.addDotted? k.name v k.path es) es

def array (value : Reader Value) : Reader Value := do
  exactly '['
  let items ← separated (exactly ',') (gap *> value <* gap)
  if items.isEmpty then pure () else discard (optional (exactly ','))
  gap
  exactly ']'
  return .array items

def inlineTable (value : Reader Value) : Reader Value := do
  exactly '\x7b'
  let pairs ← separated (exactly ',') (keyValue value <* blanks)
  blanks
  exactly '\x7d'
  match addAll? pairs [] with
  | some es => return .table .inline es
  | none => failure

def scalar : Reader Value :=
  (.string <$> string) <|> date <|> float <|> integer <|>
  (literal ['t', 'r', 'u', 'e'] *> pure (.bool true)) <|>
  (literal ['f', 'a', 'l', 's', 'e'] *> pure (.bool false))

/-- A value with at most so many arrays and tables in braces one in another. -/
def value : Nat → Reader Value
  | 0 => scalar
  | n + 1 => scalar <|> array (value n) <|> inlineTable (value n)

inductive Header where
  | table (key : Key)
  | element (key : Key)

inductive Line where
  | empty
  | header (header : Header)
  | pair (key : Key) (value : Value)

def header : Reader Header :=
  (do
    literal ['[', '[']
    let k ← key
    literal [']', ']']
    return .element k) <|>
  (do
    exactly '['
    aheadIs (· != '[')
    let k ← key
    exactly ']'
    return .table k)

def line : Reader Line :=
  (newline *> pure .empty) <|>
  (comment *> lineEnd *> pure .empty) <|>
  (.header <$> (header <* lineEnd)) <|>
  ((fun (k, v) => .pair k v) <$> (keyValue (value nestingLimit) <* lineEnd))

def lines : Reader (List Line) := do
  discard (optional (exactly (Char.ofNat 0xfeff)))
  blanks
  let ls ← many (line <* blanks)
  atEnd
  return ls

structure Section where
  header : Header
  pairs : List (Key × Value)

def sections : List Line → List (Key × Value) × List Section
  | [] => ([], [])
  | .empty :: rest => sections rest
  | .pair k v :: rest =>
    let (pairs, later) := sections rest
    ((k, v) :: pairs, later)
  | .header h :: rest =>
    let (pairs, later) := sections rest
    ([], ⟨h, pairs⟩ :: later)

/-- Puts a section into the table that its header names. Only a table that headers have passed
through can be named later, and only an array of tables can get more tables. -/
def Entries.addSection? (s : Section) (es : Entries) : Option Entries :=
  match s.header with
  | .table k =>
    es.under? (fun parent => do
      let old ← match Entries.find? parent k.name with
        | none => some []
        | some (.table .implied inner) => some inner
        | some _ => none
      let inner ← addAll? s.pairs old
      return Entries.put k.name (.table .header inner) parent) k.path
  | .element k =>
    es.under? (fun parent => do
      let old ← match Entries.find? parent k.name with
        | none => some []
        | some (.tables elements) => some elements
        | some _ => none
      let inner ← addAll? s.pairs []
      return Entries.put k.name (.tables (old ++ [(.header, inner)])) parent) k.path

def document? (text : String) : Option Entries := do
  let (ls, _) ← lines.run text.toList
  let (pairs, later) := sections ls
  let es ← addAll? pairs []
  later.foldlM (fun es s => es.addSection? s) es

end ExplicitInit.Toml
