import ExplicitInit.Class.Lowering
import ExplicitInit.ClassSetup
import ExplicitInit.Respell
import ExplicitInit.Validation

namespace ExplicitInit

namespace ClassDecl

def lowered (o : Options) (c : ClassDecl) : ClassDecl :=
  c.withLoweredConstructors o (c.roles.map Prod.snd)

def withRespelling (o : Options) (c : ClassDecl) : ClassDecl × Nat :=
  if o.respellLiterals then c.respelled else (c, 0)

def initialized (o : Options) (c : ClassDecl) : ClassDecl :=
  ((c.withRoles o).lowered o).withClassSetup o

def normalized (o : Options) (c : ClassDecl) : ClassDecl :=
  ((c.initialized o).withRespelling o).1

def changes (o : Options) (c : ClassDecl) : Summary :=
  let classified := c.withRoles o
  { classified.loweringSummary o (classified.roles.map Prod.snd) with
    constructorAdded := c.lacksConstructor
    staticMoved := ((classified.lowered o).preamble .ofClass).length
    literalsRespelled := ((c.initialized o).withRespelling o).2 }

def normalize (o : Options) (c : ClassDecl) : Except Fault (ClassDecl × Summary) :=
  match c.fault? with
  | some fault => .error fault
  | none => .ok (c.normalized o, c.changes o)

theorem normalize_eq_ok_iff {o : Options} {c c' : ClassDecl} {s : Summary} :
    c.normalize o = .ok (c', s) ↔ c.fault? = none ∧ c.normalized o = c' ∧ c.changes o = s := by
  unfold normalize
  split <;> simp_all

theorem normalize_eq_error_iff {o : Options} {c : ClassDecl} {fault : Fault} :
    c.normalize o = .error fault ↔ c.fault? = some fault := by
  unfold normalize
  split <;> simp_all

end ClassDecl

/-- A class on its way through the phases, with what they have counted so far. -/
structure Progress where
  decl : ClassDecl
  summary : Summary

namespace Progress

variable (o : Options)

def resolve (p : Progress) : Progress × List Role :=
  let resolved := p.decl.withRoles o
  let summary :=
    if p.decl.lacksConstructor then { p.summary with constructorAdded := true } else p.summary
  (⟨resolved, summary⟩, resolved.roles.map Prod.snd)

def hoist (roles : List Role) (p : Progress) : Progress :=
  if p.decl.isInterface then p
  else
    ⟨p.decl.withLoweredConstructors o roles,
      { p.summary with
        constructorsLowered := p.decl.loweringCount roles
        instanceMoved := p.decl.instanceMoved o roles }⟩

def consolidate (p : Progress) : Progress :=
  let statements := p.decl.preamble .ofClass
  ⟨p.decl.withClassSetup o,
    if statements.isEmpty then p.summary
    else { p.summary with staticMoved := statements.length }⟩

def resolveAndHoist (p : Progress) : Progress :=
  let (resolved, roles) := p.resolve o
  resolved.hoist o roles

def respell (p : Progress) : ClassDecl × Summary :=
  let (decl, count) := p.decl.withRespelling o
  (decl, { p.summary with literalsRespelled := count })

end Progress

/-- Normalizes classes in order up to the first one with a fault; that one and those after it stay
as they are. -/
def normalizeAll (o : Options) : List ClassDecl → List ClassDecl × Except Fault (List Summary)
  | [] => ([], .ok [])
  | c :: cs =>
    match c.normalize o with
    | .error fault => (c :: cs, .error fault)
    | .ok (c', summary) =>
      let (cs', rest) := normalizeAll o cs
      (c' :: cs', rest.map (summary :: ·))

end ExplicitInit
