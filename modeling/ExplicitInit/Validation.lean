import ExplicitInit.Constructor.Delegation
import ExplicitInit.Preamble
import ExplicitInit.Visit

namespace ExplicitInit.ClassDecl

def interfaceFault? (c : ClassDecl) : Option Fault :=
  if c.isInterface && !c.constructors.isEmpty then some (.interfaceConstructor c.type.name)
  else none

def hasPendingInitializer (c : ClassDecl) : Bool :=
  !c.isInterface && c.members.any fun
    | .field f => !f.isStatic && f.initializer.isSome
    | .block b => !b.isStatic
    | .constructor _ | .method _ => false

/-- Initializers that came after an earlier run go to the end of the preamble of that run, so each
designated constructor lowered by it must say where that is. -/
def boundaryFault? (c : ClassDecl) : Option Fault :=
  if c.hasPendingInitializer then
    (c.constructors.find? fun k => k.isLowered && k.isDesignated && k.boundary?.isNone).map
      fun k => .unknownBoundary c.type.name k.selector
  else none

def encloses (c : ClassDecl) (type : TypeRef) : Bool :=
  c.enclosing.any (·.type.same type)

def scopeVisitor (c : ClassDecl) : Visitor (Except Fault) where
  name x binding span :=
    match binding with
    | none => throw (.unboundName c.type.name x span)
    | some (.enclosing type) =>
      if c.encloses type then pure () else throw (.noEnclosingInstance c.type.name type.name)
    | some _ => pure ()
  call site walk :=
    if site.receiver.isNone && site.method.isNone then
      throw (.unboundName c.type.name site.selector site.span)
    else walk

def checkScope (c : ClassDecl) : Member → Except Fault Unit
  | .field f => f.initializer.forM c.scopeVisitor.visitExpr
  | .block b => c.scopeVisitor.visitBlock b.body
  | .constructor _ | .method _ => pure ()

def scopeFault? (c : ClassDecl) : Option Fault :=
  match c.members.forM c.checkScope with
  | .ok _ => none
  | .error fault => some fault

def fault? (c : ClassDecl) : Option Fault :=
  c.interfaceFault? <|> c.delegationFault? <|> c.boundaryFault? <|> c.scopeFault?

end ExplicitInit.ClassDecl
