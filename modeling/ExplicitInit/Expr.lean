import ExplicitInit.Span
import ExplicitInit.TypeRef
import ExplicitInit.Binary64
import ExplicitInit.Text.Utf16

namespace ExplicitInit

structure FieldRef where
  owner : TypeRef
  name : String
  isStatic : Bool
deriving DecidableEq

structure MethodRef where
  owner : TypeRef
  isStatic : Bool
deriving DecidableEq

inductive Binding where
  | localVar
  | field (field : FieldRef)
  | type (type : TypeRef)
  | enclosing (type : TypeRef)
deriving DecidableEq

inductive BinaryOp where
  | add | subtract | multiply | divide | remainder
  | equal | notEqual | less | lessEqual | greater | greaterEqual
  | and | or
  | concat
deriving DecidableEq

inductive Callee where
  | superclass
  | sibling
deriving DecidableEq

inductive Expr where
  | int (value : Int64) (span : Span)
  | float (value : Binary64) (span : Span)
  | bool (value : Bool) (span : Span)
  | char (unit : UInt16) (span : Span)
  | null (span : Span)
  /-- A string literal by its code units, which may hold surrogates without a partner. -/
  | string (units : List UInt16) (span : Span)
  | name (name : String) (binding : Option Binding) (span : Span)
  | self (span : Span)
  | fieldAccess (receiver : Expr) (field : FieldRef) (span : Span)
  | assign (target value : Expr) (span : Span)
  | binary (op : BinaryOp) (left right : Expr) (span : Span)
  /-- A method call; without a receiver it goes to the instance or to an enclosing one. -/
  | call (receiver : Option Expr) (selector : String) (args : List Expr)
      (method : Option MethodRef) (span : Span)
  | new (type : TypeRef) (selector : String) (args : List Expr) (enclosing : Option Expr)
      (span : Span)
  | array (elementType : String) (elements : List Expr) (span : Span)
  /-- A constructor run for its result, as lowered constructors do. -/
  | allocate (callee : Callee) (selector : String) (args : List Expr) (span : Span)
  | hook (procedure : String) (argument : Expr) (span : Span)
  | unitString (units : List UInt16) (span : Span)
  /-- A string built from a format, in which each `%@` stands for the next argument. -/
  | formatString (format : String) (args : List Expr) (span : Span)

instance : Inhabited Expr := ⟨.null .synthetic⟩

structure Invocation where
  callee : Callee
  selector : String
  args : List Expr
  span : Span

structure CallSite where
  receiver : Option Expr
  selector : String
  args : List Expr
  method : Option MethodRef
  span : Span

namespace FieldRef

def ofInstance (owner : TypeRef) (name : String) : FieldRef :=
  ⟨owner, name, false⟩

def ofClass (owner : TypeRef) (name : String) : FieldRef :=
  ⟨owner, name, true⟩

end FieldRef

namespace Invocation

def delegates (i : Invocation) : Bool :=
  i.callee == .sibling

def toSuperclass (selector : String) (args : List Expr) : Invocation :=
  ⟨.superclass, selector, args, .synthetic⟩

def toSibling (selector : String) (args : List Expr) : Invocation :=
  ⟨.sibling, selector, args, .synthetic⟩

def toExpr (i : Invocation) : Expr :=
  .allocate i.callee i.selector i.args i.span

end Invocation

namespace Expr

def span : Expr → Span
  | int _ s | float _ s | bool _ s | char _ s | null s | string _ s | name _ _ s | self s
  | fieldAccess _ _ s | assign _ _ s | binary _ _ _ s | call _ _ _ _ s | new _ _ _ _ s
  | array _ _ s | allocate _ _ _ s | hook _ _ s | unitString _ s | formatString _ _ s => s

def isLiteral : Expr → Bool
  | int .. | float .. | bool .. | char .. | null .. | string .. => true
  | _ => false

def isPrimitiveLiteral : Expr → Bool
  | int .. | float .. | bool .. | char .. => true
  | _ => false

def invocation? : Expr → Option Invocation
  | allocate callee selector args span => some ⟨callee, selector, args, span⟩
  | _ => none

def ofText (text : String) : Expr :=
  string (Utf16.encode text) .synthetic

def localVar (x : String) : Expr :=
  name x (some .localVar) .synthetic

def unbound (x : String) : Expr :=
  name x none .synthetic

def fieldName (field : FieldRef) : Expr :=
  name field.name (some (.field field)) .synthetic

def typeName (type : TypeRef) : Expr :=
  name type.name (some (.type type)) .synthetic

def enclosingInstance (type : TypeRef) : Expr :=
  name (type.name ++ ".this") (some (.enclosing type)) .synthetic

def access (receiver : Expr) (field : FieldRef) : Expr :=
  fieldAccess receiver field .synthetic

/-- An assignment extends over its target and its value. -/
def assignment (target value : Expr) : Expr :=
  assign target value (target.span.merge value.span)

def operation (op : BinaryOp) (left right : Expr) : Expr :=
  binary op left right (left.span.merge right.span)

def concat (left right : Expr) : Expr :=
  operation .concat left right

def send (receiver : Expr) (selector : String) (args : List Expr) : Expr :=
  call (some receiver) selector args none .synthetic

def sendImplicit (method : MethodRef) (selector : String) (args : List Expr) : Expr :=
  call none selector args (some method) .synthetic

def instantiate (type : TypeRef) (selector : String) (args : List Expr) : Expr :=
  new type selector args none .synthetic

end Expr

end ExplicitInit
