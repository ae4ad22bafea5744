import ExplicitInit.Stmt

namespace ExplicitInit

inductive ClassKind where
  | ordinary
  | interface
deriving DecidableEq

/-- One step outward from an inner class: the enclosing type, the field that holds its instance and
the constructor parameter that hands the instance over. -/
structure EnclosingLink where
  type : TypeRef
  field : String
  param : String
deriving DecidableEq

def EnclosingLink.to (type : TypeRef) : EnclosingLink :=
  ⟨type, "this$0", "outer$"⟩

inductive ParamKind where
  | declared
  | enclosing
deriving DecidableEq

structure Param where
  name : String
  type : String
  kind : ParamKind
deriving DecidableEq

inductive Role where
  | designated
  | delegating
deriving DecidableEq

structure Field where
  name : String
  type : String
  isStatic : Bool
  isFinal : Bool
  initializer : Option Expr
  isSynthetic : Bool
  span : Span

structure InitBlock where
  isStatic : Bool
  body : Block
  span : Span

structure Constructor where
  selector : String
  params : List Param
  body : Block
  role : Option Role
  /-- The number of statements at the start of the allocation guard that initialize the instance,
  known once the constructor is lowered. -/
  preambleLength : Option Nat
  isSynthetic : Bool
  span : Span

inductive MethodKind where
  | ordinary
  | classSetup
deriving DecidableEq

structure Method where
  name : String
  kind : MethodKind
  isStatic : Bool
  params : List Param
  returnType : String
  body : Block
  isSynthetic : Bool
  span : Span

inductive Member where
  | field (field : Field)
  | block (block : InitBlock)
  | constructor (constructor : Constructor)
  | method (method : Method)

structure ClassDecl where
  type : TypeRef
  kind : ClassKind
  superclass : Option TypeRef
  enclosing : List EnclosingLink
  members : List Member
  span : Span

def Field.ofName (name type : String) : Field :=
  ⟨name, type, false, false, none, false, .synthetic⟩

/-- A field whose value the compiler knows: static, final and a primitive literal. -/
def Field.isConstant (f : Field) : Bool :=
  f.isStatic && f.isFinal && f.initializer.any Expr.isPrimitiveLiteral

namespace InitBlock

def ofInstance (statements : List Stmt) : InitBlock :=
  ⟨false, .ofList statements, .synthetic⟩

def ofClass (statements : List Stmt) : InitBlock :=
  ⟨true, .ofList statements, .synthetic⟩

end InitBlock

def Param.declared (name type : String) : Param :=
  ⟨name, type, .declared⟩

def Param.enclosing (name type : String) : Param :=
  ⟨name, type, .enclosing⟩

namespace Constructor

def ofBody (selector : String) (params : List Param) (statements : List Stmt) : Constructor :=
  ⟨selector, params, .ofList statements, none, none, false, .synthetic⟩

def opening? (k : Constructor) : Option Invocation :=
  match k.body.statements with
  | .invoke i :: _ | .allocationGuard i _ _ :: _ => some i
  | s :: _ => s.returnedInvocation?
  | [] => none

def isLowered (k : Constructor) : Bool :=
  match k.body.statements with
  | .allocationGuard .. :: _ => true
  | s :: _ => s.returnedInvocation?.isSome
  | [] => false

def guarded? (k : Constructor) : Option (List Stmt) :=
  match k.body.statements with
  | .allocationGuard _ body _ :: _ => some body.statements
  | _ => none

def enclosingParam? (k : Constructor) : Option Param :=
  k.params.find? (·.kind == .enclosing)

/-- Where the initialization of the instance ends among the guarded statements, if that is known and
within them. -/
def boundary? (k : Constructor) : Option Nat :=
  match k.guarded? with
  | some guarded => k.preambleLength.filter (· ≤ guarded.length)
  | none => none

def sibling? (k : Constructor) : Option String :=
  match k.opening? with
  | some i => if i.delegates then some i.selector else none
  | none => none

def isDesignated (k : Constructor) : Bool :=
  k.sibling?.isNone

def roleByBody (k : Constructor) : Role :=
  if k.isDesignated then .designated else .delegating

end Constructor

namespace Method

def ofBody (name returnType : String) (params : List Param) (statements : List Stmt) : Method :=
  ⟨name, .ordinary, false, params, returnType, .ofList statements, false, .synthetic⟩

def classSetup (name : String) (params : List Param) (statements : List Stmt) : Method :=
  ⟨name, .classSetup, true, params, "void", .ofList statements, false, .synthetic⟩

end Method

namespace Member

def span : Member → Span
  | field f => f.span
  | block b => b.span
  | constructor k => k.span
  | method m => m.span

def constructor? : Member → Option Constructor
  | constructor k => some k
  | _ => none

def field? : Member → Option Field
  | field f => some f
  | _ => none

def isClassSetup : Member → Bool
  | method m => m.kind == .classSetup
  | _ => false

end Member

end ExplicitInit
