import ExplicitInit.Proofs.ChangedChecks
import Mathlib.Data.Countable.Defs
import Mathlib.Data.Fintype.EquivFin
import Mathlib.Logic.Encodable.Basic
import Mathlib.Logic.Equiv.List

namespace ExplicitInit.ClassDecl

section Always

variable {ρ : TypeRef → TypeRef} (hρ : KeepsSame ρ) (o : Options) (c : ClassDecl)

include hρ in
theorem normalized_changed :
    (c.changed (.always ρ)).normalized o =
      c.withPointers o (c.changed (.always ρ)).pointer? ((c.normalized o).changed (.always ρ)) :=
  congrArg Prod.fst (withRespelling_initialized_changed hρ o c)

theorem withPointers_changed (text? : Option String) (result : ClassDecl) :
    (c.changed (.always ρ)).withPointers o text? result = c.withPointers o text? result := by
  have hfield : (c.changed (.always ρ)).pointField text? result.members =
      c.pointField text? result.members := by
    have hempty : (c.changed (.always ρ)).addedField.isEmpty = c.addedField.isEmpty := by
      rw [addedField_changed]
      obtain h | ⟨f, _, h⟩ := addedField_cases c <;> simp [pointField, h]
    rw [pointField, pointField, hempty]
  rw [withPointers, withPointers, hfield, withImplicitConstructor_changed, constructors_changed,
    pointParams_map Constructor.gainsParam_changed]

end Always

/-- The run on a class and that on the class with other types: both reject it for the same reason,
or both accept it with the same counts, and each type in the second result is what the change makes
of the type that stands there in the first, in its place of origin. -/
def NormalizesAlike (o : Options) (c : ClassDecl) (origin : Place → Place) (g : TypeChange) :
    Prop :=
  match c.normalize o, (c.changed g).normalize o with
  | .ok (result, summary), .ok (result', summary') =>
    summary' = summary ∧
      result' = c.withPointers o (c.changed g).pointer? (result.changed fun p => g (origin p))
  | .error fault, .error fault' => fault'.anonymous = fault.anonymous
  | _, _ => False

theorem isSome_pointer?_changed (c : ClassDecl) (g : TypeChange) :
    (c.changed g).pointer?.isSome = c.pointer?.isSome := by
  obtain ⟨type, kind, superclass, enclosing, members, span⟩ := c
  cases kind <;> cases enclosing <;> rfl

theorem normalizesAlike_of_marked {o : Options} {c marked : ClassDecl} {ρ σ : TypeRef → TypeRef}
    {origin : Place → Place} {g : TypeChange} (hρ : KeepsSame ρ) (hσ : KeepsSame σ)
    (hc : marked.changed (.always ρ) = c) (hd : marked.changed (.always σ) = c.changed g)
    (horigin : ∀ p, g (origin p) (ρ ((marked.normalized o).mention p)) =
      σ ((marked.normalized o).mention p)) :
    c.NormalizesAlike o origin g := by
  have hfault : (c.changed g).fault?.map Fault.anonymous = c.fault?.map Fault.anonymous := by
    rw [← hd, ← hc, fault?_changed hσ, fault?_changed hρ]
  have hchanges : (c.changed g).changes o = c.changes o := by
    rw [← hd, ← hc, changes_changed hσ, changes_changed hρ]
  have hresult : (c.changed g).normalized o =
      c.withPointers o (c.changed g).pointer? ((c.normalized o).changed fun p => g (origin p)) := by
    have hfirst : c.normalized o = c.withPointers o c.pointer?
        ((marked.normalized o).changed (.always ρ)) := by
      rw [← hc, withPointers_changed]
      exact normalized_changed hρ o marked
    have hsecond : (c.changed g).normalized o = c.withPointers o (c.changed g).pointer?
        ((marked.normalized o).changed (.always σ)) := by
      rw [← hd, ← hc, withPointers_changed]
      exact normalized_changed hσ o marked
    have htypes : ((marked.normalized o).changed (.always ρ)).changed (fun p => g (origin p)) =
        (marked.normalized o).changed (.always σ) := changed_changed _ _ _ _ horigin
    rw [hfirst, changed_withPointers, htypes,
      withPointers_withPointers (isSome_pointer?_changed c g).symm, hsecond]
  unfold NormalizesAlike normalize
  cases hf : c.fault? with
  | none =>
    cases hf' : (c.changed g).fault? with
    | none => exact ⟨hchanges, hresult⟩
    | some fault' => simp [hf, hf'] at hfault
  | some fault =>
    cases hf' : (c.changed g).fault? with
    | none => simp [hf, hf'] at hfault
    | some fault' => simpa [hf, hf'] using hfault

/-- Normalization decides by the identity of types alone: another naming of the types, each mention
by itself, and another numbering that keeps different types different change nothing but the types
that are passed on, and the text of the types that normalization writes itself. -/
theorem normalize_changed (o : Options) (c : ClassDecl) :
    ∃ origin : Place → Place, ∀ (f : TypeId → TypeId) (g : TypeChange), Function.Injective f →
      (∀ p t, (g p t).id = f t.id) → c.NormalizesAlike o origin g := by
  obtain ⟨number, hnumber⟩ := exists_injective_nat Place
  obtain ⟨label, hlabel⟩ : ∃ label : Place → String, Function.Injective label :=
    ⟨_, (Infinite.natEmbedding String).injective.comp hnumber⟩
  -- In `marked` each mention of a type has a name of its own, by which it is found in the result.
  let place := Function.invFun label
  let marked := c.changed fun p t => ⟨t.id, label p⟩
  let named (t : TypeRef) : TypeRef := ⟨t.id, (c.mention (place t.name)).name⟩
  have hplace (p : Place) : place (label p) = p := Function.leftInverse_invFun hlabel p
  have hmention (p : Place) : named ⟨(c.mention p).id, label p⟩ = c.mention p := by
    simp only [named, hplace]
  have hnamed : KeepsSame named := fun _ _ => rfl
  have hc : marked.changed (.always named) = c := by
    calc marked.changed (.always named)
        = c.changed (.always id) := changed_changed _ _ _ c hmention
      _ = c := changed_id c
  refine ⟨fun p => place ((marked.normalized o).mention p).name, fun f g hf hg => ?_⟩
  let renamed (t : TypeRef) : TypeRef := g (place t.name) (named t)
  have hid (t : TypeRef) : (renamed t).id = f t.id := hg _ _
  have hrenamed : KeepsSame renamed := by
    intro a b
    rw [TypeRef.same, hid, hid, Bool.eq_iff_iff, beq_iff_eq, TypeRef.same_iff]
    exact hf.eq_iff
  have hd : marked.changed (.always renamed) = c.changed g := by
    refine changed_changed _ _ _ c fun p => ?_
    simp only [TypeChange.always_apply, renamed, hplace, hmention]
  exact normalizesAlike_of_marked hnamed hrenamed hc hd fun _ => rfl

def clasp : ClassDecl where
  type := ⟨⟨1⟩, "Clasp"⟩
  kind := .ordinary
  superclass := none
  enclosing := [.to ⟨⟨2⟩, "Box"⟩]
  members := [
    .field ⟨"lid", "Box *", false, false, some (.enclosingInstance ⟨⟨2⟩, "Box"⟩), false,
      .synthetic⟩,
    .constructor (.ofBody "init" [] [])]
  span := .synthetic

theorem normalize_changed_clasp :
    clasp.fault? = none ∧ ∃ origin : Place → Place,
      clasp.NormalizesAlike .standard origin fun p t =>
        ⟨⟨t.id.number + 1⟩, t.name ++ toString p.length⟩ := by
  have hinjective : Function.Injective fun t : TypeId => TypeId.mk (t.number + 1) := by
    intro a b hab
    have hn : a.number + 1 = b.number + 1 := congrArg TypeId.number hab
    cases a
    cases b
    simpa using hn
  obtain ⟨origin, h⟩ := normalize_changed .standard clasp
  exact ⟨by decide +kernel, origin, h _ _ hinjective fun _ _ => rfl⟩

end ExplicitInit.ClassDecl
