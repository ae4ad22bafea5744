import ExplicitInit.Proofs.ConstructorForms
import ExplicitInit.Proofs.EnclosingReads

namespace ExplicitInit

namespace Constructor

theorem lower_role (x : LoweringContext) (k : Constructor) (role : Role) :
    (k.lower x role).role = k.role := by
  unfold lower
  split
  · cases role with
    | designated =>
      unfold extendPreamble
      dsimp only
      split <;> rfl
    | delegating => rfl
  · cases role with
    | designated => exact withEnclosingParam_role k _
    | delegating =>
      rw [← withEnclosingParam_role k x.enclosingParam]
      unfold delegatingForm
      dsimp only
      split <;> rfl

end Constructor

namespace ClassDecl

/-- What normalization of a class makes of a constructor in it. -/
def normalConstructor (o : Options) (c : ClassDecl) (k : Constructor) : Constructor :=
  (k.classified.lower (c.loweringContext o) k.roleByBody).adjusted o.adjuster

section

variable (o : Options) (c : ClassDecl)

theorem moved_of_header {c d : ClassDecl} (h : d.header = c.header) (side : Side) :
    d.moved side = c.moved side :=
  eq_of_header (moved · side) (fun _ => rfl) h

theorem preamble_withRoles (side : Side) : (c.withRoles o).preamble side = c.preamble side := by
  rw [preamble, moved_of_header (header_withRoles o c)]
  exact filterMap_withRoles o c fun _ => rfl

theorem loweringContext_congr {c d : ClassDecl} (h : d.header = c.header)
    (hp : d.preamble .ofInstance = c.preamble .ofInstance) :
    d.loweringContext o = c.loweringContext o := by
  have hparam := eq_of_header enclosingParam? (fun _ => rfl) h
  have hassign := eq_of_header enclosingAssignment (fun _ => rfl) h
  have hreads := eq_of_header withEnclosingReads (fun _ => rfl) h
  rw [loweringContext, hparam, hassign, hreads, hp]
  rfl

theorem loweringContext_withRoles :
    (c.withRoles o).loweringContext o = c.loweringContext o :=
  loweringContext_congr o (header_withRoles o c) (preamble_withRoles o c .ofInstance)

theorem constructors_normalized {c : ClassDecl} (h : c.isInterface = false) :
    (c.normalized o).constructors =
      (c.withImplicitConstructor o).constructors.map (c.normalConstructor o) := by
  have hr : (c.withRoles o).isInterface = false := (isInterface_withRoles o c).trans h
  rw [normalized, constructors_withRespelling, initialized, constructors_withClassSetup,
    constructors_lowered o hr, constructors_withRoles o h, loweringContext_withRoles, List.map_map,
    List.map_map]
  rfl

theorem mem_constructors_normalized {c : ClassDecl} (h : c.isInterface = false) {k' : Constructor} :
    k' ∈ (c.normalized o).constructors ↔
      ∃ k ∈ (c.withImplicitConstructor o).constructors, c.normalConstructor o k = k' := by
  rw [constructors_normalized o h, List.mem_map]

variable (k : Constructor)

@[simp] theorem normalConstructor_selector :
    (c.normalConstructor o k).selector = k.selector :=
  Constructor.lower_selector (c.loweringContext o) k.classified k.roleByBody

@[simp] theorem normalConstructor_isLowered : (c.normalConstructor o k).isLowered = true := by
  rw [normalConstructor, Constructor.isLowered_adjusted]
  exact Constructor.isLowered_lower _ k.classified

theorem isLowered_normalized {c : ClassDecl} (h : c.isInterface = false) {k' : Constructor}
    (hk : k' ∈ (c.normalized o).constructors) : k'.isLowered = true := by
  obtain ⟨k, _, rfl⟩ := (mem_constructors_normalized o h).mp hk
  exact normalConstructor_isLowered o c k

@[simp] theorem normalConstructor_sibling? :
    (c.normalConstructor o k).sibling? = k.sibling? := by
  rw [normalConstructor, Constructor.sibling?_adjusted]
  exact Constructor.sibling?_lower _ k.classified

@[simp] theorem normalConstructor_isDesignated :
    (c.normalConstructor o k).isDesignated = k.isDesignated :=
  Constructor.isDesignated_congr (normalConstructor_sibling? o c k)

@[simp] theorem normalConstructor_roleByBody :
    (c.normalConstructor o k).roleByBody = k.roleByBody :=
  Constructor.roleByBody_congr (normalConstructor_sibling? o c k)

@[simp] theorem normalConstructor_role :
    (c.normalConstructor o k).role = some k.roleByBody :=
  Constructor.lower_role (c.loweringContext o) k.classified k.roleByBody

end

end ClassDecl

end ExplicitInit
