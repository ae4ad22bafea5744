import ExplicitInit.Visit

namespace ExplicitInit

/-- What a traversal comes to. -/
inductive Event where
  | classDecl (c : ClassDecl)
  | member (m : Member)
  | statement (s : Stmt)
  | block (b : Block)
  | expression (e : Expr)
  | name (x : String)
  | stringLiteral (units : List UInt16)
  | call (site : CallSite)
  | invocation (i : Invocation)

namespace Event

abbrev Recording := StateM (List Event)

def record (e : Event) : Recording Unit :=
  modify (· ++ [e])

def recorder : Visitor Recording where
  classDecl c walk := record (.classDecl c) *> walk
  member m walk := record (.member m) *> walk
  statement s walk := record (.statement s) *> walk
  block b walk := record (.block b) *> walk
  expression e walk := record (.expression e) *> walk
  call site walk := record (.call site) *> walk
  invocation i walk := record (.invocation i) *> walk
  name x _ _ := record (.name x)
  stringLiteral units _ := record (.stringLiteral units)

def leafRecorder : Visitor Recording where
  name x _ _ := record (.name x)
  stringLiteral units _ := record (.stringLiteral units)

def recorded (traversal : Recording Unit) : List Event :=
  (traversal.run []).2

end Event

end ExplicitInit
