import ExplicitInit.Stmt

namespace ExplicitInit

/-- What takes the place of each kind of node; by default, the node with its parts rewritten. -/
structure Rewriter (m : Type → Type) [Monad m] where
  statement : Stmt → m Stmt → m Stmt := fun _ walk => walk
  block : Block → m Block → m Block := fun _ walk => walk
  expression : Expr → m Expr → m Expr := fun _ walk => walk

namespace Rewriter

variable {m : Type → Type} [Monad m] (w : Rewriter m)

mutual

def walkExpr : Expr → m Expr
  | .int value s => pure (.int value s)
  | .float value s => pure (.float value s)
  | .bool value s => pure (.bool value s)
  | .char value s => pure (.char value s)
  | .null s => pure (.null s)
  | .string units s => pure (.string units s)
  | .name x binding s => pure (.name x binding s)
  | .self s => pure (.self s)
  | .fieldAccess r f s => do
    let r' ← w.expression r (walkExpr r)
    return .fieldAccess r' f s
  | .assign l r s => do
    let l' ← w.expression l (walkExpr l)
    let r' ← w.expression r (walkExpr r)
    return .assign l' r' s
  | .binary op l r s => do
    let l' ← w.expression l (walkExpr l)
    let r' ← w.expression r (walkExpr r)
    return .binary op l' r' s
  | .call none selector args method s => do
    let args' ← rewriteExprs args
    return .call none selector args' method s
  | .call (some r) selector args method s => do
    let r' ← w.expression r (walkExpr r)
    let args' ← rewriteExprs args
    return .call (some r') selector args' method s
  | .new type selector args none s => do
    let args' ← rewriteExprs args
    return .new type selector args' none s
  | .new type selector args (some o) s => do
    let o' ← w.expression o (walkExpr o)
    let args' ← rewriteExprs args
    return .new type selector args' (some o') s
  | .array type elements s => do
    let elements' ← rewriteExprs elements
    return .array type elements' s
  | .allocate callee selector args s => do
    let args' ← rewriteExprs args
    return .allocate callee selector args' s
  | .hook procedure a s => do
    let a' ← w.expression a (walkExpr a)
    return .hook procedure a' s
  | .unitString units s => pure (.unitString units s)
  | .formatString format args s => do
    let args' ← rewriteExprs args
    return .formatString format args' s

def rewriteExprs : List Expr → m (List Expr)
  | [] => pure []
  | e :: es => do
    let e' ← w.expression e (walkExpr e)
    let es' ← rewriteExprs es
    return e' :: es'

end

def rewriteExpr (e : Expr) : m Expr :=
  w.expression e (w.walkExpr e)

def walkInvocation (i : Invocation) : m Invocation := do
  let args ← w.rewriteExprs i.args
  return { i with args }

mutual

def walkStmt : Stmt → m Stmt
  | .expr e s => do
    let e' ← w.rewriteExpr e
    return .expr e' s
  | .block b => do
    let b' ← w.block b (walkBlock b)
    return .block b'
  | .declare x type none s => pure (.declare x type none s)
  | .declare x type (some e) s => do
    let e' ← w.rewriteExpr e
    return .declare x type (some e') s
  | .ite c t none s => do
    let c' ← w.rewriteExpr c
    let t' ← w.statement t (walkStmt t)
    return .ite c' t' none s
  | .ite c t (some e) s => do
    let c' ← w.rewriteExpr c
    let t' ← w.statement t (walkStmt t)
    let e' ← w.statement e (walkStmt e)
    return .ite c' t' (some e') s
  | .ret none s => pure (.ret none s)
  | .ret (some e) s => do
    let e' ← w.rewriteExpr e
    return .ret (some e') s
  | .invoke i => do
    let i' ← w.walkInvocation i
    return .invoke i'
  | .allocationGuard i b s => do
    let i' ← w.walkInvocation i
    let b' ← w.block b (walkBlock b)
    return .allocationGuard i' b' s
  | .classGuard type b s => do
    let b' ← w.block b (walkBlock b)
    return .classGuard type b' s

def rewriteStmts : List Stmt → m (List Stmt)
  | [] => pure []
  | s :: ss => do
    let s' ← w.statement s (walkStmt s)
    let ss' ← rewriteStmts ss
    return s' :: ss'

def walkBlock : Block → m Block
  | ⟨statements, s⟩ => do
    let statements' ← rewriteStmts statements
    return ⟨statements', s⟩

end

def rewriteStmt (s : Stmt) : m Stmt :=
  w.statement s (w.walkStmt s)

def rewriteBlock (b : Block) : m Block :=
  w.block b (w.walkBlock b)

end Rewriter

end ExplicitInit
