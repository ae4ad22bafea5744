namespace ExplicitInit.Toml

/-- How a table came to be, which decides what may be added to it later. -/
inductive Origin where
  | inline
  | header
  | implied
  | dotted
deriving DecidableEq

inductive Value where
  | string (text : String)
  | integer (value : Int)
  | float
  | bool (value : Bool)
  | date
  | array (items : List Value)
  | table (origin : Origin) (entries : List (String × Value))
  | tables (elements : List (Origin × List (String × Value)))

abbrev Entries := List (String × Value)

namespace Entries

def find? (es : Entries) (key : String) : Option Value :=
  List.lookup key es

def put (key : String) (value : Value) : Entries → Entries
  | [] => [(key, value)]
  | (k, v) :: es => if k = key then (key, value) :: es else (k, v) :: put key value es

def add? (es : Entries) (key : String) (value : Value) : Option Entries :=
  if (find? es key).isSome then none else some (es ++ [(key, value)])

end Entries

def onLast (f : Entries → Option Entries) :
    List (Origin × Entries) → Option (List (Origin × Entries))
  | [] => none
  | [(origin, es)] => (f es).map fun es' => [(origin, es')]
  | e :: rest => (onLast f rest).map (e :: ·)

/-- Adds a value under a dotted key, making tables on the way. A table with a header of its own and
one in braces are closed to dotted keys; the table that gets the value is one that dotted keys
made. -/
def Entries.addDotted? (name : String) (value : Value) : List String → Entries → Option Entries
  | [], es => es.add? name value
  | key :: path, es =>
    match Entries.find? es key with
    | none =>
      (Entries.addDotted? name value path []).map fun inner => es ++ [(key, .table .dotted inner)]
    | some (.table .dotted inner) =>
      (Entries.addDotted? name value path inner).map fun inner' =>
        Entries.put key (.table .dotted inner') es
    | some (.table .implied inner) =>
      if path.isEmpty then none
      else
        (Entries.addDotted? name value path inner).map fun inner' =>
          Entries.put key (.table .implied inner') es
    | some (.tables elements) =>
      if path.isEmpty then none
      else
        (onLast (Entries.addDotted? name value path) elements).map fun elements' =>
          Entries.put key (.tables elements') es
    | some _ => none

def Entries.under? (f : Entries → Option Entries) : List String → Entries → Option Entries
  | [], es => f es
  | key :: path, es =>
    match Entries.find? es key with
    | none => (Entries.under? f path []).map fun inner => es ++ [(key, .table .implied inner)]
    | some (.table .inline _) => none
    | some (.table origin inner) =>
      (Entries.under? f path inner).map fun inner' => Entries.put key (.table origin inner') es
    | some (.tables elements) =>
      (onLast (Entries.under? f path) elements).map fun elements' =>
        Entries.put key (.tables elements') es
    | some _ => none

end ExplicitInit.Toml
