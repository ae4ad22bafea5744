import ExplicitInit.Class.Lookup
import ExplicitInit.Options

namespace ExplicitInit

/-- The constructor that a class has when it declares none: it only runs the superclass's. -/
def Constructor.implicit (selector : String) : Constructor :=
  { Constructor.ofBody selector [] [.toSuperclass selector []] with isSynthetic := true }

def Constructor.classified (k : Constructor) : Constructor :=
  { k with role := some k.roleByBody }

def Member.classified : Member → Member
  | .constructor k => .constructor k.classified
  | m => m

namespace ClassDecl

def lacksConstructor (c : ClassDecl) : Bool :=
  !c.isInterface && c.constructors.isEmpty

/-- An implicit constructor stands after the fields and blocks at the start of the class. -/
def implicitPosition (c : ClassDecl) : Nat :=
  (c.members.takeWhile fun
    | .field _ | .block _ => true
    | .constructor _ | .method _ => false).length

def withImplicitConstructor (o : Options) (c : ClassDecl) : ClassDecl :=
  if c.lacksConstructor then
    c.insertAt c.implicitPosition (.constructor (.implicit o.defaultSelector))
  else c

def withRoles (o : Options) (c : ClassDecl) : ClassDecl :=
  if c.isInterface then c
  else
    let full := c.withImplicitConstructor o
    { full with members := full.members.map Member.classified }

def roles (c : ClassDecl) : List (MemberId × Role) :=
  if c.isInterface then []
  else c.placedConstructors.map fun (id, k) => (id, k.roleByBody)

theorem constructors_insertAt (c : ClassDecl) (i : Nat) (m : Member) :
    (c.insertAt i m).constructors =
      (c.members.take i).filterMap Member.constructor? ++ m.constructor?.toList ++
        (c.members.drop i).filterMap Member.constructor? := by
  unfold constructors insertAt
  rw [List.filterMap_append, List.filterMap_cons, List.append_assoc]
  cases m.constructor? <;> rfl

theorem constructors_withImplicitConstructor_ne_nil {o : Options} {c : ClassDecl}
    (h : c.isInterface = false) : (c.withImplicitConstructor o).constructors ≠ [] := by
  unfold withImplicitConstructor
  split
  · simp [constructors_insertAt, Member.constructor?]
  · rename_i hl
    simpa [lacksConstructor, h] using hl

end ClassDecl

end ExplicitInit
