import ExplicitInit.Class.Basic

namespace ExplicitInit

/-- The action for a node gets the walk over the node's parts, and decides whether and when to run
it. -/
structure Visitor (m : Type → Type) [Monad m] where
  classDecl : ClassDecl → m Unit → m Unit := fun _ walk => walk
  member : Member → m Unit → m Unit := fun _ walk => walk
  statement : Stmt → m Unit → m Unit := fun _ walk => walk
  block : Block → m Unit → m Unit := fun _ walk => walk
  expression : Expr → m Unit → m Unit := fun _ walk => walk
  call : CallSite → m Unit → m Unit := fun _ walk => walk
  invocation : Invocation → m Unit → m Unit := fun _ walk => walk
  name : String → Option Binding → Span → m Unit := fun _ _ _ => pure ()
  stringLiteral : List UInt16 → Span → m Unit := fun _ _ => pure ()

namespace Visitor

variable {m : Type → Type} [Monad m] (v : Visitor m)

mutual

def walkExpr : Expr → m Unit
  | .int .. | .float .. | .bool .. | .char .. | .null .. | .self .. | .unitString .. => pure ()
  | .string units span => v.stringLiteral units span
  | .name x binding span => v.name x binding span
  | .fieldAccess r _ _ => v.expression r (walkExpr r)
  | .assign l r _ => do
    v.expression l (walkExpr l)
    v.expression r (walkExpr r)
  | .binary _ l r _ => do
    v.expression l (walkExpr l)
    v.expression r (walkExpr r)
  | .call none selector args method span =>
    v.call ⟨none, selector, args, method, span⟩ (visitExprs args)
  | .call (some r) selector args method span =>
    v.call ⟨some r, selector, args, method, span⟩ do
      v.expression r (walkExpr r)
      visitExprs args
  | .new _ _ args none _ => visitExprs args
  | .new _ _ args (some o) _ => do
    v.expression o (walkExpr o)
    visitExprs args
  | .array _ elements _ => visitExprs elements
  | .allocate callee selector args span =>
    v.invocation ⟨callee, selector, args, span⟩ (visitExprs args)
  | .hook _ a _ => v.expression a (walkExpr a)
  | .formatString _ args _ => visitExprs args

def visitExprs : List Expr → m Unit
  | [] => pure ()
  | e :: es => do
    v.expression e (walkExpr e)
    visitExprs es

end

def visitExpr (e : Expr) : m Unit :=
  v.expression e (v.walkExpr e)

def visitInvocation (i : Invocation) : m Unit :=
  v.invocation i (v.visitExprs i.args)

mutual

def walkStmt : Stmt → m Unit
  | .expr e _ => v.visitExpr e
  | .block b => v.block b (walkBlock b)
  | .declare _ _ none _ | .ret none _ => pure ()
  | .declare _ _ (some e) _ | .ret (some e) _ => v.visitExpr e
  | .ite c t none _ => do
    v.visitExpr c
    v.statement t (walkStmt t)
  | .ite c t (some e) _ => do
    v.visitExpr c
    v.statement t (walkStmt t)
    v.statement e (walkStmt e)
  | .invoke i => v.visitInvocation i
  | .allocationGuard i b _ => do
    v.visitInvocation i
    v.block b (walkBlock b)
  | .classGuard _ b _ => v.block b (walkBlock b)

def visitStmts : List Stmt → m Unit
  | [] => pure ()
  | s :: ss => do
    v.statement s (walkStmt s)
    visitStmts ss

def walkBlock : Block → m Unit
  | ⟨statements, _⟩ => visitStmts statements

end

def visitStmt (s : Stmt) : m Unit :=
  v.statement s (v.walkStmt s)

def visitBlock (b : Block) : m Unit :=
  v.block b (v.walkBlock b)

def walkMember : Member → m Unit
  | .field f => f.initializer.forM v.visitExpr
  | .block b => v.visitBlock b.body
  | .constructor k => v.visitBlock k.body
  | .method f => v.visitBlock f.body

def visitMember (d : Member) : m Unit :=
  v.member d (v.walkMember d)

def visitClass (c : ClassDecl) : m Unit :=
  v.classDecl c (c.members.forM v.visitMember)

end Visitor

end ExplicitInit
