import ExplicitInit.Print.Literal
import ExplicitInit.Expr

namespace ExplicitInit

def BinaryOp.symbol : BinaryOp → String
  | add | concat => "+"
  | subtract => "-"
  | multiply => "*"
  | divide => "/"
  | remainder => "%"
  | equal => "=="
  | notEqual => "!="
  | less => "<"
  | lessEqual => "<="
  | greater => ">"
  | greaterEqual => ">="
  | and => "&&"
  | or => "||"

namespace Print

def instanceField (name : String) : String :=
  name ++ "_"

def staticField (owner name : String) : String :=
  owner ++ "_" ++ name ++ "_"

def field (f : FieldRef) : String :=
  if f.isStatic then staticField f.owner.name f.name else instanceField f.name

/-- The keywords of a selector: what stands before each colon, and a last part without colon if it
is not empty. The first argument is the part read so far, in reverse. -/
def keywordsFrom (part : List Char) : List Char → List String
  | [] => if part.isEmpty then [] else [String.ofList part.reverse]
  | ':' :: rest => String.ofList part.reverse :: keywordsFrom [] rest
  | c :: rest => keywordsFrom (c :: part) rest

def keywords (selector : String) : List String :=
  keywordsFrom [] selector.toList

def labelled : List String → List String → List String
  | _, [] => []
  | [], a :: as => (":" ++ a) :: labelled [] as
  | k :: ks, a :: as => (k ++ ":" ++ a) :: labelled ks as

def filled (selector : String) (args : List String) : String :=
  if args.isEmpty then selector
  else String.intercalate " " (labelled (keywords selector) args)

def callee : Callee → String
  | .superclass => "super"
  | .sibling => "self"

def bracketed (receiver selector : String) (args : List String) : String :=
  "[" ++ receiver ++ " " ++ filled selector args ++ "]"

def implicitReceiver : Option MethodRef → String
  | some m => if m.isStatic then m.owner.name else "self"
  | none => "self"

mutual

def expr : Expr → String
  | .int value _ => toString value.toInt
  | .float value _ => float value
  | .bool value _ => bool value
  | .char unit _ => char unit
  | .null _ => "nil"
  | .string units _ => string units
  | .name _ (some (.field f)) _ => field f
  | .name x _ _ => x
  | .self _ => "self"
  | .fieldAccess (.self _) f _ => field f
  | .fieldAccess r f _ => if f.isStatic then field f else expr r ++ "->" ++ field f
  | .assign target value _ => expr target ++ " = " ++ expr value
  | .binary op left right _ => expr left ++ " " ++ op.symbol ++ " " ++ expr right
  | .call none selector args method _ =>
    bracketed (implicitReceiver method) selector (exprs args)
  | .call (some r) selector args _ _ => bracketed (expr r) selector (exprs args)
  | .new type selector args none _ =>
    bracketed ("[" ++ type.name ++ " alloc]") selector (exprs args)
  | .new type selector args (some o) _ =>
    bracketed ("[" ++ type.name ++ " alloc]") selector (expr o :: exprs args)
  | .array type elements _ =>
    "[IOSObjectArray arrayWithObjects:(id[])\x7b " ++ String.intercalate ", " (exprs elements) ++
      " \x7d count:" ++ toString elements.length ++ " type:[IOSClass classWithClass:[" ++ type ++
      " class]]]"
  | .allocate c selector args _ => bracketed (callee c) selector (exprs args)
  | .hook procedure argument _ => procedure ++ "(" ++ expr argument ++ ")"
  | .unitString units _ => unitString units
  | .formatString format args _ =>
    "[NSString stringWithFormat:" ++
      String.intercalate ", " (string (Utf16.encode format) :: exprs args) ++ "]"

def exprs : List Expr → List String
  | [] => []
  | e :: es => expr e :: exprs es

end

def invocation (i : Invocation) : String :=
  bracketed (callee i.callee) i.selector (exprs i.args)

end Print

end ExplicitInit
