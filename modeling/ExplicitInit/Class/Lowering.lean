import ExplicitInit.Constructor.Lowered
import ExplicitInit.Constructor.Role
import ExplicitInit.Enclosing
import ExplicitInit.Preamble
import ExplicitInit.Summary

namespace ExplicitInit

def lowerMembers (x : LoweringContext) : List Role → List Member → List Member
  | _, [] => []
  | role :: roles, .constructor k :: ms => .constructor (k.lower x role) :: lowerMembers x roles ms
  | roles, m :: ms => m :: lowerMembers x roles ms

namespace ClassDecl

def enclosingPointer (link : EnclosingLink) : String :=
  link.type.name ++ " *"

def enclosingParam? (c : ClassDecl) : Option Param :=
  c.enclosing.head?.map fun link => .enclosing link.param (enclosingPointer link)

def enclosingAssignment (c : ClassDecl) : List Stmt :=
  match c.enclosing with
  | [] => []
  | link :: _ =>
    [.ofExpr (.assignment (.fieldName (c.enclosingField link)) (.localVar link.param))]

/-- Declares the field for the enclosing instance unless a field of its name is declared. -/
def withEnclosingField (c : ClassDecl) : ClassDecl :=
  match c.enclosing with
  | [] => c
  | link :: _ =>
    if (c.field? link.field).isSome then c
    else
      c.insertAt 0
        (.field { Field.ofName link.field (enclosingPointer link) with isSynthetic := true })

def loweringContext (o : Options) (c : ClassDecl) : LoweringContext where
  options := o
  enclosingParam := c.enclosingParam?
  enclosingAssignment := c.enclosingAssignment
  hoisted := c.withEnclosingReads (c.preamble .ofInstance)

def withLoweredConstructors (o : Options) (roles : List Role) (c : ClassDecl) : ClassDecl :=
  if c.isInterface then c
  else
    let bare := c.withoutPreamble .ofInstance
    let lowered := lowerMembers (c.loweringContext o) roles bare.members
    { bare with members := lowered }.withEnclosingField

def loweringCount (roles : List Role) (c : ClassDecl) : Nat :=
  (c.constructors.zip roles).countP fun (k, _) => !k.isLowered

def extendsLowered (roles : List Role) (c : ClassDecl) : Bool :=
  !(c.preamble .ofInstance).isEmpty &&
    (c.constructors.zip roles).any fun (k, role) => k.isLowered && role == .designated

/-- How many statements lowering counts as the instance preamble: all of it if there is a
constructor to lower, else what lowered constructors take in. -/
def instanceMoved (o : Options) (roles : List Role) (c : ClassDecl) : Nat :=
  let x := c.loweringContext o
  if 0 < c.loweringCount roles then x.preamble.length
  else if c.extendsLowered roles then x.hoisted.length
  else 0

def loweringSummary (o : Options) (roles : List Role) (c : ClassDecl) : Summary :=
  if c.isInterface then .zero
  else
    { Summary.zero with
      constructorsLowered := c.loweringCount roles
      instanceMoved := c.instanceMoved o roles }

end ClassDecl

end ExplicitInit
