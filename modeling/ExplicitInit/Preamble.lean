import ExplicitInit.Class.Lookup
import ExplicitInit.Text.Inline

namespace ExplicitInit

inductive Side where
  | ofInstance
  | ofClass
deriving DecidableEq

def Field.side (c : ClassDecl) (f : Field) : Side :=
  if c.isInterface || f.isStatic then .ofClass else .ofInstance

def InitBlock.side (b : InitBlock) : Side :=
  if b.isStatic then .ofClass else .ofInstance

def Expr.isDeclarable : Expr → Bool
  | .string units _ => allInline units
  | e => e.isPrimitiveLiteral

/-- Whether a field keeps its declaration as it is: in an interface, without an initializer, or as a
static final field with a constant. -/
def Field.stays (c : ClassDecl) (f : Field) : Bool :=
  c.isInterface ||
    match f.initializer with
    | none => true
    | some e => f.isStatic && f.isFinal && e.isDeclarable

namespace ClassDecl

/-- The assignment that a field initializer amounts to; its span is that of the declaration. -/
def fieldAssignment (c : ClassDecl) (side : Side) (f : Field) (e : Expr) : Stmt :=
  .expr (.assignment (.fieldName ⟨c.type, f.name, side == .ofClass⟩) e) f.span

def moved (c : ClassDecl) (side : Side) : Member → Option Stmt
  | .field f =>
    if f.side c == side && !f.stays c then f.initializer.map (c.fieldAssignment side f) else none
  | .block b => if b.side == side then some (.block b.body) else none
  | .constructor _ | .method _ => none

def unmoved (c : ClassDecl) (side : Side) : Member → Option Member
  | .field f =>
    some (.field (if f.side c == side && !f.stays c then { f with initializer := none } else f))
  | .block b => if b.side == side then none else some (.block b)
  | m => some m

def preamble (c : ClassDecl) (side : Side) : List Stmt :=
  c.members.filterMap (c.moved side)

def withoutPreamble (c : ClassDecl) (side : Side) : ClassDecl :=
  { c with members := c.members.filterMap (c.unmoved side) }

theorem constructors_withoutPreamble (c : ClassDecl) (side : Side) :
    (c.withoutPreamble side).constructors = c.constructors := by
  unfold constructors withoutPreamble
  rw [List.filterMap_filterMap]
  congr 1
  funext m
  cases m with
  | field f => rfl
  | block b =>
    by_cases hb : (b.side == side) = true <;> simp [unmoved, hb, Member.constructor?]
  | constructor k => rfl
  | method m => rfl

theorem moved_clear (c : ClassDecl) (side : Side) (f : Field) :
    c.moved side (.field { f with initializer := none }) = none := by
  simp [moved, Field.stays]

theorem moved_of_unmoved {c : ClassDecl} {side : Side} {m m' : Member}
    (h : c.unmoved side m = some m') : c.moved side m' = none := by
  cases m with
  | field f =>
    cases Option.some.inj h
    split
    · exact moved_clear c side f
    · rename_i hf
      simp only [moved, hf]
      rfl
  | block b =>
    by_cases hb : (b.side == side) = true
    · simp [unmoved, hb] at h
    · have hm : some (Member.block b) = some m' := by simpa [unmoved, hb] using h
      cases Option.some.inj hm
      simp [moved, hb]
  | constructor k =>
    cases Option.some.inj h
    rfl
  | method m =>
    cases Option.some.inj h
    rfl

/-- A preamble is taken once: nothing is left of it. -/
theorem preamble_withoutPreamble (c : ClassDecl) (side : Side) :
    (c.withoutPreamble side).preamble side = [] := by
  apply List.filterMap_eq_nil_iff.mpr
  intro m hm
  obtain ⟨old, _, ho⟩ := List.mem_filterMap.mp hm
  exact moved_of_unmoved ho

end ClassDecl

end ExplicitInit
