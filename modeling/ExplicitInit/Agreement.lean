import ExplicitInit.Class.Basic

namespace ExplicitInit

def agreeOption {α : Type} (agree : α → α → Bool) : Option α → Option α → Bool
  | none, none => true
  | some a, some b => agree a b
  | _, _ => false

def agreeList {α : Type} (agree : α → α → Bool) : List α → List α → Bool
  | [], [] => true
  | a :: as, b :: bs => agree a b && agreeList agree as bs
  | _, _ => false

def FieldRef.agrees (a b : FieldRef) : Bool :=
  a.owner.same b.owner && a.name == b.name && a.isStatic == b.isStatic

def MethodRef.agrees (a b : MethodRef) : Bool :=
  a.owner.same b.owner && a.isStatic == b.isStatic

def Binding.agrees : Binding → Binding → Bool
  | localVar, localVar => true
  | field f, field g => f.agrees g
  | type t, type u => t.same u
  | enclosing t, enclosing u => t.same u
  | _, _ => false

mutual

def Expr.agrees : Expr → Expr → Bool
  | .int v s, e => match e with | .int w t => v == w && s == t | _ => false
  | .float v s, e => match e with | .float w t => v.agrees w && s == t | _ => false
  | .bool v s, e => match e with | .bool w t => v == w && s == t | _ => false
  | .char v s, e => match e with | .char w t => v == w && s == t | _ => false
  | .null s, e => match e with | .null t => s == t | _ => false
  | .string v s, e => match e with | .string w t => v == w && s == t | _ => false
  | .name x b s, e =>
    match e with
    | .name y c t => x == y && agreeOption Binding.agrees b c && s == t
    | _ => false
  | .self s, e => match e with | .self t => s == t | _ => false
  | .fieldAccess r f s, e =>
    match e with
    | .fieldAccess r' g t => r.agrees r' && f.agrees g && s == t
    | _ => false
  | .assign l r s, e =>
    match e with
    | .assign l' r' t => l.agrees l' && r.agrees r' && s == t
    | _ => false
  | .binary op l r s, e =>
    match e with
    | .binary op' l' r' t => op == op' && l.agrees l' && r.agrees r' && s == t
    | _ => false
  | .call none x as m s, e =>
    match e with
    | .call none y bs n t =>
      x == y && Expr.agreeAll as bs && agreeOption MethodRef.agrees m n && s == t
    | _ => false
  | .call (some r) x as m s, e =>
    match e with
    | .call (some r') y bs n t =>
      r.agrees r' && x == y && Expr.agreeAll as bs && agreeOption MethodRef.agrees m n && s == t
    | _ => false
  | .new c x as none s, e =>
    match e with
    | .new d y bs none t => c.same d && x == y && Expr.agreeAll as bs && s == t
    | _ => false
  | .new c x as (some o) s, e =>
    match e with
    | .new d y bs (some o') t =>
      c.same d && x == y && Expr.agreeAll as bs && o.agrees o' && s == t
    | _ => false
  | .array x as s, e =>
    match e with
    | .array y bs t => x == y && Expr.agreeAll as bs && s == t
    | _ => false
  | .allocate k x as s, e =>
    match e with
    | .allocate l y bs t => k == l && x == y && Expr.agreeAll as bs && s == t
    | _ => false
  | .hook x a s, e =>
    match e with
    | .hook y b t => x == y && a.agrees b && s == t
    | _ => false
  | .unitString v s, e => match e with | .unitString w t => v == w && s == t | _ => false
  | .formatString x as s, e =>
    match e with
    | .formatString y bs t => x == y && Expr.agreeAll as bs && s == t
    | _ => false

def Expr.agreeAll : List Expr → List Expr → Bool
  | [], bs => bs.isEmpty
  | a :: as, bs =>
    match bs with
    | b :: bs => a.agrees b && Expr.agreeAll as bs
    | [] => false

end

def Invocation.agrees (a b : Invocation) : Bool :=
  a.callee == b.callee && a.selector == b.selector && Expr.agreeAll a.args b.args &&
    a.span == b.span

mutual

def Stmt.agrees : Stmt → Stmt → Bool
  | .expr a s, e => match e with | .expr b t => a.agrees b && s == t | _ => false
  | .block a, e => match e with | .block b => a.agrees b | _ => false
  | .declare x c a s, e =>
    match e with
    | .declare y d b t => x == y && c == d && agreeOption Expr.agrees a b && s == t
    | _ => false
  | .ite c a none s, e =>
    match e with
    | .ite c' a' none t => c.agrees c' && a.agrees a' && s == t
    | _ => false
  | .ite c a (some b) s, e =>
    match e with
    | .ite c' a' (some b') t => c.agrees c' && a.agrees a' && b.agrees b' && s == t
    | _ => false
  | .ret a s, e => match e with | .ret b t => agreeOption Expr.agrees a b && s == t | _ => false
  | .invoke i, e => match e with | .invoke j => i.agrees j | _ => false
  | .allocationGuard i a s, e =>
    match e with
    | .allocationGuard j b t => i.agrees j && a.agrees b && s == t
    | _ => false
  | .classGuard c a s, e =>
    match e with
    | .classGuard d b t => c.same d && a.agrees b && s == t
    | _ => false

def Stmt.agreeAll : List Stmt → List Stmt → Bool
  | [], bs => bs.isEmpty
  | a :: as, bs =>
    match bs with
    | b :: bs => a.agrees b && Stmt.agreeAll as bs
    | [] => false

def Block.agrees : Block → Block → Bool
  | ⟨as, s⟩, b => Stmt.agreeAll as b.statements && s == b.span

end

def Field.agrees (a b : Field) : Bool :=
  a.name == b.name && a.type == b.type && a.isStatic == b.isStatic && a.isFinal == b.isFinal &&
    agreeOption Expr.agrees a.initializer b.initializer && a.isSynthetic == b.isSynthetic &&
    a.span == b.span

def InitBlock.agrees (a b : InitBlock) : Bool :=
  a.isStatic == b.isStatic && a.body.agrees b.body && a.span == b.span

def Constructor.agrees (a b : Constructor) : Bool :=
  a.selector == b.selector && a.params == b.params && a.body.agrees b.body && a.role == b.role &&
    a.preambleLength == b.preambleLength && a.isSynthetic == b.isSynthetic && a.span == b.span

def Method.agrees (a b : Method) : Bool :=
  a.name == b.name && a.kind == b.kind && a.isStatic == b.isStatic && a.params == b.params &&
    a.returnType == b.returnType && a.body.agrees b.body && a.isSynthetic == b.isSynthetic &&
    a.span == b.span

def Member.agrees : Member → Member → Bool
  | field a, field b => a.agrees b
  | block a, block b => a.agrees b
  | constructor a, constructor b => a.agrees b
  | method a, method b => a.agrees b
  | _, _ => false

def EnclosingLink.agrees (a b : EnclosingLink) : Bool :=
  a.type.same b.type && a.field == b.field && a.param == b.param

/-- Types are compared by identity alone and numbers as IEEE 754 compares them; all else, spans
included, is compared as it stands. -/
def ClassDecl.agrees (a b : ClassDecl) : Bool :=
  a.type.same b.type && a.kind == b.kind && agreeOption TypeRef.same a.superclass b.superclass &&
    agreeList EnclosingLink.agrees a.enclosing b.enclosing &&
    agreeList Member.agrees a.members b.members && a.span == b.span

end ExplicitInit
