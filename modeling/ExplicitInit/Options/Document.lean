import ExplicitInit.Options
import ExplicitInit.Toml.Document

namespace ExplicitInit.Options

def keys : List String :=
  ["memory_hook", "class_initializer", "default_selector", "rewrite_unrepresentable_literals"]

def set? (o : Options) : String × Toml.Value → Option Options
  | ("memory_hook", .string s) => some { o with memoryHook := s }
  | ("class_initializer", .string s) => some { o with classSetup := s }
  | ("default_selector", .string s) => some { o with defaultSelector := s }
  | ("rewrite_unrepresentable_literals", .bool b) => some { o with respellLiterals := b }
  | _ => none

def ofEntries? (es : Toml.Entries) : Option Options :=
  es.foldlM set? standard

/-- Values beyond the last option are left aside. -/
def ofItems? (items : List Toml.Value) : Option Options :=
  (keys.zip items).foldlM set? standard

def ofValue? : Toml.Value → Option Options
  | .table _ es => ofEntries? es
  | .array items => ofItems? items
  | _ => none

/-- The options of a document, unless it is not well formed or its options are not. -/
def ofDocument? (text : String) : Option Options := do
  let es ← Toml.document? text
  match Toml.Entries.find? es "normalizer" with
  | some v => ofValue? v
  | none => some standard

end ExplicitInit.Options
