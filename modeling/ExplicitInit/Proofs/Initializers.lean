import ExplicitInit.Proofs.Execution
import ExplicitInit.Validation

namespace ExplicitInit.ClassDecl

/-- The statement that a member stands for when an instance is initialized. -/
def instanceInitializer? (c : ClassDecl) : Member → Option Stmt
  | .field f =>
    if f.isStatic then none
    else f.initializer.map fun e =>
      .expr (.assignment (.fieldName (.ofInstance c.type f.name)) e) f.span
  | .block b => if b.isStatic then none else some (.block b.body)
  | .constructor _ | .method _ => none

def instanceInitializers (c : ClassDecl) : List Stmt :=
  c.members.filterMap c.instanceInitializer?

/-- In an inner class the enclosing instance is kept before anything else is initialized. -/
def enclosingInitializer (c : ClassDecl) : List Stmt :=
  c.enclosing.head?.toList.map fun link =>
    .ofExpr (.assignment (.fieldName (.ofInstance c.type link.field)) (.localVar link.param))

variable {c : ClassDecl}

theorem moved_ofInstance (h : c.isInterface = false) (m : Member) :
    c.moved .ofInstance m = c.instanceInitializer? m := by
  cases m with
  | field f =>
    cases hs : f.isStatic with
    | true => simp [moved, instanceInitializer?, Field.side, h, hs]
    | false =>
      cases hi : f.initializer with
      | none => simp [moved, instanceInitializer?, hs, hi]
      | some e =>
        simp only [moved, instanceInitializer?, Field.side, Field.stays, h, hs, hi]
        rfl
  | block b => cases hs : b.isStatic <;> simp [moved, instanceInitializer?, InitBlock.side, hs]
  | constructor k => rfl
  | method f => rfl

theorem preamble_ofInstance (h : c.isInterface = false) :
    c.preamble .ofInstance = c.instanceInitializers := by
  unfold preamble instanceInitializers
  congr 1
  funext m
  exact moved_ofInstance h m

theorem moved_eq_some {side : Side} {m : Member} {s : Stmt} (h : c.moved side m = some s) :
    (∃ f e, m = .field f ∧ f.initializer = some e ∧ s = c.fieldAssignment side f e) ∨
      ∃ b, m = .block b ∧ b.side = side ∧ s = .block b.body := by
  cases m with
  | field f =>
    by_cases hf : (f.side c == side && !f.stays c) = true
    · simp only [moved, hf, if_true] at h
      obtain ⟨e, he, rfl⟩ := Option.map_eq_some_iff.mp h
      exact .inl ⟨f, e, rfl, he, rfl⟩
    · simp [moved, hf] at h
  | block b =>
    by_cases hb : (b.side == side) = true
    · simp only [moved, hb, if_true] at h
      exact .inr ⟨b, rfl, eq_of_beq hb, (Option.some.inj h).symm⟩
    · simp [moved, hb] at h
  | constructor k => cases h
  | method f => cases h

theorem preamble_without_return {side : Side}
    (hb : ∀ b, .block b ∈ c.members → b.side = side → b.body.mayReturn = false) :
    Stmt.anyMayReturn (c.preamble side) = false := by
  rw [Stmt.anyMayReturn_eq_false_iff]
  intro s hs
  obtain ⟨m, hm, hmoved⟩ := List.mem_filterMap.mp hs
  rcases moved_eq_some hmoved with ⟨f, e, rfl, _, rfl⟩ | ⟨b, rfl, hside, rfl⟩
  · rfl
  · exact hb b hm hside

theorem hasPendingInitializer_eq_false_iff (h : c.isInterface = false) :
    c.hasPendingInitializer = false ↔ c.instanceInitializers = [] := by
  rw [instanceInitializers, List.filterMap_eq_nil_iff]
  simp only [hasPendingInitializer, h, Bool.not_false, Bool.true_and, List.any_eq_false]
  refine forall₂_congr fun m _ => ?_
  cases m with
  | field f =>
    cases hs : f.isStatic <;> cases hi : f.initializer <;> simp [instanceInitializer?, hs, hi]
  | block b => cases hs : b.isStatic <;> simp [instanceInitializer?, hs]
  | constructor k => simp [instanceInitializer?]
  | method f => simp [instanceInitializer?]

end ExplicitInit.ClassDecl
