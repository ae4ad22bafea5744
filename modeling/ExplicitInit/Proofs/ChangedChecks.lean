import ExplicitInit.Proofs.ChangedPhases
import ExplicitInit.Proofs.Violations

namespace ExplicitInit

variable {ρ : TypeRef → TypeRef}

section Counts

namespace ClassDecl

variable (hρ : KeepsSame ρ) (o : Options) (c : ClassDecl)

theorem withRoles_changed :
    (c.changed (.always ρ)).withRoles o = (c.withRoles o).changed (.always ρ) := by
  have hclassified (m : Member) :
      (m.changed (.always ρ)).classified = m.classified.changed (.always ρ) := by
    cases m with
    | constructor k => exact congrArg Member.constructor (Constructor.classified_changed k)
    | _ => rfl
  refine eq_of_header_of_members ?_ ?_
  · rw [header_changed, header_withRoles, header_withRoles, header_changed]
  · unfold withRoles
    rw [isInterface_changed]
    split
    · rfl
    · rw [withImplicitConstructor_changed, members_changed]
      dsimp only
      rw [members_changed, List.map_map, List.map_map]
      exact congrArg (List.map · _) (funext hclassified)

theorem roles_changed :
    (c.changed (.always ρ)).roles.map Prod.snd = c.roles.map Prod.snd := by
  cases hc : c.isInterface with
  | true =>
    simp [roles, isInterface_changed, hc]
  | false =>
    rw [roles_eq hc, roles_eq (c := c.changed (.always ρ)) hc, constructors_changed, List.map_map]
    exact congrArg (List.map · _) (funext Constructor.roleByBody_changed)

theorem loweringCount_changed (roles : List Role) :
    (c.changed (.always ρ)).loweringCount roles = c.loweringCount roles := by
  rw [loweringCount, constructors_changed, List.zip_map_left, List.countP_map, loweringCount]
  congr 1
  funext x
  obtain ⟨k, role⟩ := x
  simp [Constructor.isLowered_changed]

theorem extendsLowered_changed (roles : List Role) :
    (c.changed (.always ρ)).extendsLowered roles = c.extendsLowered roles := by
  rw [extendsLowered, preamble_changed, constructors_changed, List.zip_map_left, List.any_map,
    extendsLowered]
  congr 1
  · cases c.preamble .ofInstance <;> rfl
  · congr 1
    funext x
    obtain ⟨k, role⟩ := x
    simp [Constructor.isLowered_changed]

include hρ in
theorem loweringSummary_changed (roles : List Role) :
    (c.changed (.always ρ)).loweringSummary o roles = c.loweringSummary o roles := by
  rw [loweringSummary, loweringSummary, isInterface_changed]
  cases hc : c.isInterface with
  | true => rfl
  | false =>
    have hpreamble : ((c.changed (.always ρ)).loweringContext o).preamble.length =
        (c.loweringContext o).preamble.length := by
      rw [loweringContext_changed hρ o c hc]
      exact LoweringContext.length_preamble_changed _
    have hhoisted : ((c.changed (.always ρ)).loweringContext o).hoisted.length =
        (c.loweringContext o).hoisted.length := by
      rw [loweringContext_changed hρ o c hc]
      exact List.length_map _
    simp only [instanceMoved, loweringCount_changed, extendsLowered_changed, hpreamble, hhoisted]

include hρ in
theorem changes_changed : (c.changed (.always ρ)).changes o = c.changes o := by
  have hstatic : ((((c.changed (.always ρ)).withRoles o).lowered o).preamble .ofClass).length =
      (((c.withRoles o).lowered o).preamble .ofClass).length := by
    rw [preamble_ofClass_lowered_withRoles, preamble_ofClass_lowered_withRoles, preamble_changed,
      List.length_map]
  have hrespelled : (((c.changed (.always ρ)).initialized o).withRespelling o).2 =
      ((c.initialized o).withRespelling o).2 := by
    rw [withRespelling_initialized_changed hρ]
    rfl
  have hlowering : ((c.changed (.always ρ)).withRoles o).loweringSummary o
        (((c.changed (.always ρ)).withRoles o).roles.map Prod.snd) =
      (c.withRoles o).loweringSummary o ((c.withRoles o).roles.map Prod.snd) := by
    rw [withRoles_changed, roles_changed, loweringSummary_changed hρ]
  unfold changes
  dsimp only
  rw [hstatic, hrespelled, hlowering, lacksConstructor_changed]

end ClassDecl

end Counts

def Fault.anonymous : Fault → Fault
  | undeclaredSibling _ selector => undeclaredSibling "" selector
  | delegationCycle _ selector => delegationCycle "" selector
  | unboundName _ name span => unboundName "" name span
  | noEnclosingInstance _ _ => noEnclosingInstance "" ""
  | interfaceConstructor _ => interfaceConstructor ""
  | unknownBoundary _ selector => unknownBoundary "" selector

section Faults

theorem Fault.anonymous_orElse {a b c d : Option Fault}
    (hab : a.map Fault.anonymous = b.map Fault.anonymous)
    (hcd : c.map Fault.anonymous = d.map Fault.anonymous) :
    (a <|> c).map Fault.anonymous = (b <|> d).map Fault.anonymous := by
  cases a with
  | none =>
    cases b with
    | none => exact hcd
    | some b => cases hab
  | some a =>
    cases b with
    | none => cases hab
    | some b => exact hab

theorem Member.initializerNodes_changed (m : Member) :
    (m.changed (.always ρ)).initializerNodes =
      m.initializerNodes.map (Expr.changed (.always ρ)) := by
  cases m with
  | field f => exact Expr.optionalNodes_changed f.initializer
  | block b => exact Block.nodes_changed b.body
  | constructor k => rfl
  | method f => rfl

namespace ClassDecl

variable (hρ : KeepsSame ρ) (c : ClassDecl)

theorem interfaceFault?_changed :
    (c.changed (.always ρ)).interfaceFault?.map Fault.anonymous =
      c.interfaceFault?.map Fault.anonymous := by
  have hk : (c.changed (.always ρ)).constructors.isEmpty = c.constructors.isEmpty := by
    rw [constructors_changed, List.isEmpty_map]
  rw [interfaceFault?, interfaceFault?, hk, isInterface_changed]
  split <;> rfl

theorem chainFault?_changed (k : Constructor) (i : Nat) :
    ((c.changed (.always ρ)).chainFault? (k.changed (.always ρ)) i).map Fault.anonymous =
      (c.chainFault? k i).map Fault.anonymous := by
  have hend : (c.changed (.always ρ)).chainEndFrom (k.changed (.always ρ)) i =
      c.chainEndFrom k i := by
    rw [chainEndFrom, constructors_changed, List.length_map]
    have hselector (k : Constructor) : (k.changed (.always ρ)).selector = k.selector := rfl
    exact chainEnd_map hselector Constructor.sibling?_changed c.constructors _ k
  rw [chainFault?, chainFault?, hend]
  cases c.chainEndFrom k i <;> rfl

theorem delegationFault?_changed :
    (c.changed (.always ρ)).delegationFault?.map Fault.anonymous =
      c.delegationFault?.map Fault.anonymous := by
  rw [delegationFault?, constructors_changed, List.zipIdx_map, List.findSome?_map,
    delegationFault?, List.map_findSome?, List.map_findSome?]
  congr 1
  funext x
  obtain ⟨k, i⟩ := x
  exact chainFault?_changed c k i

theorem hasPendingInitializer_changed :
    (c.changed (.always ρ)).hasPendingInitializer = c.hasPendingInitializer := by
  rw [hasPendingInitializer, hasPendingInitializer, isInterface_changed, members_changed,
    List.any_map]
  congr 2
  funext m
  cases m with
  | field f => simp [Member.changed, Field.changed]
  | _ => rfl

theorem boundaryFault?_changed :
    (c.changed (.always ρ)).boundaryFault?.map Fault.anonymous =
      c.boundaryFault?.map Fault.anonymous := by
  have hlacks : ((fun k : Constructor => k.isLowered && k.isDesignated && k.boundary?.isNone) ∘
        Constructor.changed (.always ρ)) =
      fun k => k.isLowered && k.isDesignated && k.boundary?.isNone := by
    funext k
    simp [Constructor.isLowered_changed, Constructor.isDesignated, Constructor.sibling?_changed,
      Constructor.boundary?_changed]
  rw [boundaryFault?, hasPendingInitializer_changed, constructors_changed, List.find?_map, hlacks,
    boundaryFault?]
  split
  · rw [Option.map_map, Option.map_map, Option.map_map]
    rfl
  · rfl

include hρ in
theorem encloses_changed (type : TypeRef) :
    (c.changed (.always ρ)).encloses (ρ type) = c.encloses type := by
  rw [encloses, enclosing_changed, List.any_map, encloses]
  congr 1
  funext link
  exact hρ link.type type

include hρ in
theorem violation?_changed (e : Expr) :
    ((c.changed (.always ρ)).violation? (e.changed (.always ρ))).map Fault.anonymous =
      (c.violation? e).map Fault.anonymous := by
  cases e with
  | name x binding span =>
    cases binding with
    | none => rfl
    | some b =>
      cases b with
      | enclosing type =>
        simp only [Expr.changed, Option.map_some, Binding.changed, violation?,
          TypeChange.always_apply, encloses_changed hρ]
        split <;> rfl
      | _ => rfl
  | call receiver selector args method span =>
    cases receiver with
    | none => cases method <;> rfl
    | some r => rfl
  | new type selector args o span => cases o <;> rfl
  | _ => rfl

include hρ in
theorem scopeFault?_changed :
    (c.changed (.always ρ)).scopeFault?.map Fault.anonymous =
      c.scopeFault?.map Fault.anonymous := by
  rw [scopeFault?_eq_head?, scopeFault?_eq_head?, ← List.head?_map, ← List.head?_map]
  congr 1
  rw [violations, violations, members_changed, List.flatMap_map, List.map_flatMap, List.map_flatMap]
  congr 1
  funext m
  rw [Member.initializerNodes_changed, List.filterMap_map, List.map_filterMap, List.map_filterMap]
  congr 1
  funext e
  exact violation?_changed hρ c e

include hρ in
/-- The fault of a changed class is that of the class but for the names of types in it. -/
theorem fault?_changed :
    (c.changed (.always ρ)).fault?.map Fault.anonymous = c.fault?.map Fault.anonymous :=
  Fault.anonymous_orElse (interfaceFault?_changed c)
    (Fault.anonymous_orElse (delegationFault?_changed c)
      (Fault.anonymous_orElse (boundaryFault?_changed c) (scopeFault?_changed hρ c)))

end ClassDecl

end Faults

end ExplicitInit
