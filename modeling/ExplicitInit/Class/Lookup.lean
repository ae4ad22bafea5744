import ExplicitInit.Class.Basic

namespace ExplicitInit.ClassDecl

def ofType (type : TypeRef) : ClassDecl :=
  ⟨type, .ordinary, none, [], [], .synthetic⟩

def interface (type : TypeRef) : ClassDecl :=
  ⟨type, .interface, none, [], [], .synthetic⟩

def isInterface (c : ClassDecl) : Bool :=
  c.kind == .interface

def isInner (c : ClassDecl) : Bool :=
  !c.enclosing.isEmpty

def member? (c : ClassDecl) (id : MemberId) : Option Member :=
  c.members[id.position]?

def constructor? (c : ClassDecl) (id : MemberId) : Option Constructor :=
  (c.member? id).bind Member.constructor?

def constructors (c : ClassDecl) : List Constructor :=
  c.members.filterMap Member.constructor?

def fields (c : ClassDecl) : List Field :=
  c.members.filterMap Member.field?

def placedConstructors (c : ClassDecl) : List (MemberId × Constructor) :=
  c.members.zipIdx.filterMap fun (m, i) => m.constructor?.map (MemberId.ofPosition i, ·)

def field? (c : ClassDecl) (name : String) : Option Field :=
  c.fields.find? (·.name == name)

def fieldPosition? (c : ClassDecl) (name : String) : Option Nat :=
  c.members.findIdx? fun m => m.field?.any (·.name == name)

def classSetupId? (c : ClassDecl) : Option MemberId :=
  (c.members.findIdx? Member.isClassSetup).map MemberId.ofPosition

def classSetup? (c : ClassDecl) : Option Method :=
  match c.classSetupId?.bind c.member? with
  | some (.method m) => some m
  | _ => none

def extending (c : ClassDecl) (superclass : TypeRef) : ClassDecl :=
  { c with superclass := some superclass }

def nestedIn (c : ClassDecl) (link : EnclosingLink) : ClassDecl :=
  { c with enclosing := c.enclosing ++ [link] }

def push (c : ClassDecl) (m : Member) : ClassDecl :=
  { c with members := c.members ++ [m] }

/-- Inserts a member before the one at a position, at the end if there is none. -/
def insertAt (c : ClassDecl) (position : Nat) (m : Member) : ClassDecl :=
  { c with members := c.members.take position ++ m :: c.members.drop position }

def insertionId (c : ClassDecl) (position : Nat) : MemberId :=
  .ofPosition (min position c.members.length)

def replace (c : ClassDecl) (id : MemberId) (m : Member) : ClassDecl :=
  { c with members := c.members.set id.position m }

@[simp] theorem members_push (c : ClassDecl) (m : Member) :
    (c.push m).members = c.members ++ [m] := rfl

theorem insertAt_zero (c : ClassDecl) (m : Member) :
    (c.insertAt 0 m).members = m :: c.members := rfl

end ExplicitInit.ClassDecl
