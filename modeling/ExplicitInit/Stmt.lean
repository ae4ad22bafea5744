import ExplicitInit.Expr

namespace ExplicitInit

mutual

inductive Stmt where
  | expr (expression : Expr) (span : Span)
  | block (block : Block)
  | declare (name : String) (type : String) (initializer : Option Expr) (span : Span)
  | ite (condition : Expr) (thenBranch : Stmt) (elseBranch : Option Stmt) (span : Span)
  | ret (value : Option Expr) (span : Span)
  | invoke (invocation : Invocation)
  /-- Runs the body if the invocation gives an instance, which becomes the instance itself. -/
  | allocationGuard (invocation : Invocation) (body : Block) (span : Span)
  /-- Runs the body for exactly this class and for no class that inherits from it. -/
  | classGuard (type : TypeRef) (body : Block) (span : Span)

structure Block where
  statements : List Stmt
  span : Span

end

instance : Inhabited Block := ⟨⟨[], .synthetic⟩⟩

instance : Inhabited Stmt := ⟨.block default⟩

namespace Block

def ofList (statements : List Stmt) : Block :=
  ⟨statements, .synthetic⟩

def empty : Block :=
  ofList []

def length (b : Block) : Nat :=
  b.statements.length

def isEmpty (b : Block) : Bool :=
  b.statements.isEmpty

@[simp] theorem mk_statements_span (b : Block) : ⟨b.statements, b.span⟩ = b := by
  cases b
  rfl

end Block

namespace Stmt

def span : Stmt → Span
  | expr _ s | declare _ _ _ s | ite _ _ _ s | ret _ s | allocationGuard _ _ s
  | classGuard _ _ s => s
  | block b => b.span
  | invoke i => i.span

def ofExpr (e : Expr) : Stmt :=
  expr e e.span

def ofList (statements : List Stmt) : Stmt :=
  block (.ofList statements)

def returning (value : Option Expr) : Stmt :=
  ret value .synthetic

def toSuperclass (selector : String) (args : List Expr) : Stmt :=
  invoke (.toSuperclass selector args)

def toSibling (selector : String) (args : List Expr) : Stmt :=
  invoke (.toSibling selector args)

def ifElse (condition : Expr) (thenBranch : Stmt) (elseBranch : Option Stmt) : Stmt :=
  ite condition thenBranch elseBranch .synthetic

def returnedInvocation? : Stmt → Option Invocation
  | ret (some (.hook _ argument _)) _ => argument.invocation?
  | _ => none

theorem returnedInvocation?_eq_some_iff {s : Stmt} {i : Invocation} :
    s.returnedInvocation? = some i ↔
      ∃ procedure hookSpan span, s = ret (some (.hook procedure i.toExpr hookSpan)) span := by
  constructor
  · intro h
    unfold returnedInvocation? at h
    split at h
    · rename_i procedure argument hookSpan span
      unfold Expr.invocation? at h
      split at h
      · cases h
        exact ⟨procedure, hookSpan, span, rfl⟩
      · simp at h
    · simp at h
  · rintro ⟨_, _, _, rfl⟩
    rfl

end Stmt

end ExplicitInit
