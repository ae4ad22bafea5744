import ExplicitInit.Rewrite
import ExplicitInit.Proofs.Nodes

namespace ExplicitInit

def Expr.isConstruction : Expr → Bool
  | .self .. | .allocate .. | .hook .. => true
  | _ => false

namespace Rewriter

/-- Statements, blocks and the forms of construction get no action of their own. -/
class KeepsForm (w : Rewriter Id) : Prop where
  statement : ∀ s walk, w.statement s walk = walk
  block : ∀ b walk, w.block b walk = walk
  construction : ∀ e walk, e.isConstruction = true → w.expression e walk = walk

def mapExpr (w : Rewriter Id) (e : Expr) : Expr :=
  (w.rewriteExpr e).run

def mapExprs (w : Rewriter Id) (es : List Expr) : List Expr :=
  (w.rewriteExprs es).run

def mapInvocation (w : Rewriter Id) (i : Invocation) : Invocation :=
  { i with args := w.mapExprs i.args }

def mapStmt (w : Rewriter Id) (s : Stmt) : Stmt :=
  (w.rewriteStmt s).run

def mapStmts (w : Rewriter Id) (ss : List Stmt) : List Stmt :=
  (w.rewriteStmts ss).run

def mapBlock (w : Rewriter Id) (b : Block) : Block :=
  (w.rewriteBlock b).run

section Map

variable {w : Rewriter Id}

@[simp] theorem mapExprs_cons (e : Expr) (es : List Expr) :
    w.mapExprs (e :: es) = w.mapExpr e :: w.mapExprs es := rfl

@[simp] theorem mapStmts_nil : w.mapStmts [] = [] := rfl

@[simp] theorem mapStmts_cons (s : Stmt) (ss : List Stmt) :
    w.mapStmts (s :: ss) = w.mapStmt s :: w.mapStmts ss := rfl

theorem mapStmts_eq_map (ss : List Stmt) : w.mapStmts ss = ss.map w.mapStmt := by
  induction ss with
  | nil => rfl
  | cons s ss ih => simp [ih]

@[simp] theorem mapStmts_append (ss ts : List Stmt) :
    w.mapStmts (ss ++ ts) = w.mapStmts ss ++ w.mapStmts ts := by
  simp [mapStmts_eq_map]

@[simp] theorem mapStmts_take (n : Nat) (ss : List Stmt) :
    w.mapStmts (ss.take n) = (w.mapStmts ss).take n := by
  simp [mapStmts_eq_map]

@[simp] theorem mapStmts_drop (n : Nat) (ss : List Stmt) :
    w.mapStmts (ss.drop n) = (w.mapStmts ss).drop n := by
  simp [mapStmts_eq_map]

@[simp] theorem length_mapStmts (ss : List Stmt) : (w.mapStmts ss).length = ss.length := by
  simp [mapStmts_eq_map]

end Map

section KeepsForm

variable {w : Rewriter Id} [hw : w.KeepsForm]

@[simp] theorem mapExpr_self (s : Span) : w.mapExpr (.self s) = .self s :=
  congrArg Id.run (hw.construction (.self s) _ rfl)

@[simp] theorem mapExpr_hook (procedure : String) (a : Expr) (s : Span) :
    w.mapExpr (.hook procedure a s) = .hook procedure (w.mapExpr a) s :=
  congrArg Id.run (hw.construction (.hook procedure a s) _ rfl)

@[simp] theorem mapExpr_toExpr (i : Invocation) :
    w.mapExpr i.toExpr = (w.mapInvocation i).toExpr :=
  congrArg Id.run (hw.construction i.toExpr _ rfl)

theorem mapStmt_eq_walk (s : Stmt) : w.mapStmt s = (w.walkStmt s).run :=
  congrArg Id.run (hw.statement s _)

theorem mapBlock_eq (b : Block) :
    w.mapBlock b = { b with statements := w.mapStmts b.statements } := by
  rw [mapBlock, rewriteBlock, hw.block]
  cases b
  rfl

@[simp] theorem mapStmt_expr (e : Expr) (s : Span) :
    w.mapStmt (.expr e s) = .expr (w.mapExpr e) s := by
  rw [mapStmt_eq_walk]
  rfl

@[simp] theorem mapStmt_block (b : Block) : w.mapStmt (.block b) = .block (w.mapBlock b) := by
  rw [mapStmt_eq_walk]
  rfl

@[simp] theorem mapStmt_declare (x type : String) (e : Option Expr) (s : Span) :
    w.mapStmt (.declare x type e s) = .declare x type (e.map w.mapExpr) s := by
  rw [mapStmt_eq_walk]
  cases e <;> rfl

@[simp] theorem mapStmt_ite (c : Expr) (t : Stmt) (e : Option Stmt) (s : Span) :
    w.mapStmt (.ite c t e s) = .ite (w.mapExpr c) (w.mapStmt t) (e.map w.mapStmt) s := by
  rw [mapStmt_eq_walk]
  cases e <;> rfl

@[simp] theorem mapStmt_ret (e : Option Expr) (s : Span) :
    w.mapStmt (.ret e s) = .ret (e.map w.mapExpr) s := by
  rw [mapStmt_eq_walk]
  cases e <;> rfl

@[simp] theorem mapStmt_invoke (i : Invocation) :
    w.mapStmt (.invoke i) = .invoke (w.mapInvocation i) := by
  rw [mapStmt_eq_walk]
  rfl

@[simp] theorem mapStmt_allocationGuard (i : Invocation) (b : Block) (s : Span) :
    w.mapStmt (.allocationGuard i b s) =
      .allocationGuard (w.mapInvocation i) (w.mapBlock b) s := by
  rw [mapStmt_eq_walk]
  rfl

@[simp] theorem mapStmt_classGuard (type : TypeRef) (b : Block) (s : Span) :
    w.mapStmt (.classGuard type b s) = .classGuard type (w.mapBlock b) s := by
  rw [mapStmt_eq_walk]
  rfl

end KeepsForm

end Rewriter

end ExplicitInit
