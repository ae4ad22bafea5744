import ExplicitInit.Class.Lookup
import ExplicitInit.Rewrite

namespace ExplicitInit

namespace ClassDecl

/-- Follows the chain outward from an instance of `type` to the first instance of `target`. -/
def reachFrom? (target : TypeRef) (here : Expr) (type : TypeRef) : List EnclosingLink → Option Expr
  | [] => if type.same target then some here else none
  | link :: rest =>
    if type.same target then some here
    else reachFrom? target (.access here (.ofInstance type link.field)) link.type rest

def reachThrough? (c : ClassDecl) (here : EnclosingLink → Expr) (target : TypeRef) : Option Expr :=
  match c.enclosing with
  | [] => none
  | link :: rest => reachFrom? target (here link) link.type rest

def enclosingField (c : ClassDecl) (link : EnclosingLink) : FieldRef :=
  .ofInstance c.type link.field

/-- An expression for the first enclosing instance of a type. -/
def reach? (c : ClassDecl) (target : TypeRef) : Option Expr :=
  c.reachThrough? (fun link => .fieldName (c.enclosingField link)) target

def reachField? (c : ClassDecl) (f : FieldRef) : Option Expr :=
  if f.isStatic then none else (c.reach? f.owner).map fun r => .access r f

def reachName? (c : ClassDecl) : Binding → Option Expr
  | .field f => c.reachField? f
  | .enclosing type => c.reach? type
  | .localVar | .type _ => none

/-- The receiver of a call that goes to an enclosing instance. The receiver is itself subject to
the rules for names: its first field is read through the chain if an enclosing type has it. -/
def reachReceiver? (c : ClassDecl) (m : MethodRef) : Option Expr :=
  if m.isStatic then none
  else
    c.reachThrough? (fun link =>
      (c.reachField? (c.enclosingField link)).getD (.fieldName (c.enclosingField link))) m.owner

end ClassDecl

def Expr.withReceiver (receiver : Expr) : Expr → Expr
  | .call none selector args method span => .call (some receiver) selector args method span
  | e => e

/-- Sends names and calls of enclosing instances through the chain of a class. -/
def enclosingRewriter (c : ClassDecl) : Rewriter Id where
  expression e walk :=
    match e with
    | .name _ (some binding) _ => (c.reachName? binding).getD e
    | .call none _ _ (some method) _ =>
      match c.reachReceiver? method with
      | some receiver => Expr.withReceiver receiver walk
      | none => walk
    | _ => walk

def ClassDecl.withEnclosingReads (c : ClassDecl) (statements : List Stmt) : List Stmt :=
  ((enclosingRewriter c).rewriteStmts statements).run

end ExplicitInit
