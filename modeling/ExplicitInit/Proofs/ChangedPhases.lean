import ExplicitInit.Proofs.ChangedTrees
import ExplicitInit.Proofs.EnclosingPointers

namespace ExplicitInit

variable {ρ : TypeRef → TypeRef}

section Constructors

theorem Expr.invocation?_changed (e : Expr) :
    (e.changed (.always ρ)).invocation? =
      e.invocation?.map (Invocation.changed (.always ρ)) := by
  cases e with
  | call receiver selector args method s => cases receiver <;> rfl
  | new type selector args o s => cases o <;> rfl
  | _ => rfl

theorem Stmt.returnedInvocation?_changed (s : Stmt) :
    (s.changed (.always ρ)).returnedInvocation? =
      s.returnedInvocation?.map (Invocation.changed (.always ρ)) := by
  cases s with
  | ret value s =>
    cases value with
    | none => rfl
    | some e =>
      cases e with
      | hook procedure a s => exact Expr.invocation?_changed a
      | call receiver selector args method s => cases receiver <;> rfl
      | new type selector args o s => cases o <;> rfl
      | _ => rfl
  | ite c t e s => cases e <;> rfl
  | _ => rfl

theorem splitInvocation_changed (ss : List Stmt) :
    splitInvocation (ss.map (Stmt.changed (.always ρ))) =
      ((splitInvocation ss).1.map (Invocation.changed (.always ρ)),
        (splitInvocation ss).2.map (Stmt.changed (.always ρ))) := by
  cases ss with
  | nil => rfl
  | cons s ss =>
    cases s with
    | ite c t e s => cases e <;> rfl
    | _ => rfl

theorem Invocation.forwarding_changed (i : Invocation) (p? : Option Param) :
    (i.changed (.always ρ)).forwarding p? = (i.forwarding p?).changed (.always ρ) := by
  have hpasses (x : String) : (i.changed (.always ρ)).passes x = i.passes x := by
    obtain ⟨callee, selector, args, span⟩ := i
    cases args with
    | nil => rfl
    | cons a args =>
      cases a with
      | call receiver selector args method s => cases receiver <;> rfl
      | new type selector args o s => cases o <;> rfl
      | _ => rfl
  cases p? with
  | none => rfl
  | some p =>
    rw [Invocation.forwarding, Invocation.forwarding, hpasses]
    split <;> rfl

namespace Constructor

variable (k : Constructor)

theorem statements_changed :
    (k.changed (.always ρ)).body.statements =
      k.body.statements.map (Stmt.changed (.always ρ)) := by
  rw [Constructor.changed, Block.changed_always]

theorem opening?_changed :
    (k.changed (.always ρ)).opening? = k.opening?.map (Invocation.changed (.always ρ)) := by
  unfold opening?
  rw [statements_changed]
  cases k.body.statements with
  | nil => rfl
  | cons s ss =>
    cases s with
    | ret value s => exact Stmt.returnedInvocation?_changed (.ret value s)
    | ite c t e s => cases e <;> rfl
    | _ => rfl

theorem isLowered_changed : (k.changed (.always ρ)).isLowered = k.isLowered := by
  unfold isLowered
  rw [statements_changed]
  cases k.body.statements with
  | nil => rfl
  | cons s ss =>
    cases s with
    | ret value s =>
      have hs := Stmt.returnedInvocation?_changed (ρ := ρ) (.ret value s)
      change (Stmt.changed (.always ρ) (.ret value s)).returnedInvocation?.isSome =
        (Stmt.ret value s).returnedInvocation?.isSome
      rw [hs, Option.isSome_map]
    | ite c t e s => cases e <;> rfl
    | _ => rfl

theorem guarded?_changed :
    (k.changed (.always ρ)).guarded? =
      k.guarded?.map (List.map (Stmt.changed (.always ρ))) := by
  unfold guarded?
  rw [statements_changed]
  cases k.body.statements with
  | nil => rfl
  | cons s ss =>
    cases s with
    | allocationGuard i b s => simp [Stmt.changed, Block.changed_always]
    | ite c t e s => cases e <;> rfl
    | _ => rfl

theorem boundary?_changed : (k.changed (.always ρ)).boundary? = k.boundary? := by
  unfold boundary?
  rw [guarded?_changed]
  cases k.guarded? with
  | none => rfl
  | some guarded => simp [Constructor.changed]

theorem sibling?_changed : (k.changed (.always ρ)).sibling? = k.sibling? := by
  unfold sibling?
  rw [opening?_changed]
  cases k.opening? <;> rfl

theorem roleByBody_changed : (k.changed (.always ρ)).roleByBody = k.roleByBody := by
  rw [roleByBody, roleByBody, isDesignated, isDesignated, sibling?_changed]

theorem gainsParam_changed : (k.changed (.always ρ)).gainsParam = k.gainsParam := by
  rw [gainsParam, isLowered_changed]
  rfl

theorem classified_changed :
    (k.changed (.always ρ)).classified = k.classified.changed (.always ρ) := by
  rw [classified, roleByBody_changed]
  rfl

end Constructor

namespace LoweringContext

def changed (ρ : TypeRef → TypeRef) (x : LoweringContext) : LoweringContext :=
  { x with
    enclosingAssignment := x.enclosingAssignment.map (Stmt.changed (.always ρ))
    hoisted := x.hoisted.map (Stmt.changed (.always ρ)) }

variable (x : LoweringContext)

theorem preamble_changed :
    (x.changed ρ).preamble = x.preamble.map (Stmt.changed (.always ρ)) := by
  rw [preamble, preamble, List.map_append]
  rfl

theorem length_preamble_changed : (x.changed ρ).preamble.length = x.preamble.length := by
  rw [preamble_changed, List.length_map]

end LoweringContext

namespace Constructor

variable (x : LoweringContext) (k : Constructor)

theorem withEnclosingParam_changed (p? : Option Param) :
    (k.changed (.always ρ)).withEnclosingParam p? =
      (k.withEnclosingParam p?).changed (.always ρ) := by
  have hparam : (k.changed (.always ρ)).enclosingParam? = k.enclosingParam? := rfl
  cases p? with
  | none => rfl
  | some p =>
    rw [withEnclosingParam, withEnclosingParam, hparam]
    split <;> rfl

theorem designatedForm_changed :
    (k.changed (.always ρ)).designatedForm (x.changed ρ) =
      (k.designatedForm x).changed (.always ρ) := by
  unfold designatedForm
  rw [statements_changed, splitInvocation_changed, LoweringContext.preamble_changed,
    List.length_map]
  obtain ⟨invocation, rest⟩ := splitInvocation k.body.statements
  cases invocation <;>
    simp [Constructor.changed, withStatements, Block.changed_always, Block.ofList, Stmt.changed,
      Stmt.ofExpr, Stmt.returning, Invocation.changed, Invocation.toSuperclass, Expr.changedAll,
      LoweringContext.hook, LoweringContext.changed, Expr.changed]

theorem delegatingForm_changed :
    (k.changed (.always ρ)).delegatingForm (x.changed ρ) =
      (k.delegatingForm x).changed (.always ρ) := by
  unfold delegatingForm
  rw [statements_changed, splitInvocation_changed]
  obtain ⟨_ | i, _ | ⟨s, rest⟩⟩ := splitInvocation k.body.statements
  · rfl
  · rfl
  · have hexpr (i : Invocation) :
        i.toExpr.changed (.always ρ) = (i.changed (.always ρ)).toExpr := rfl
    simp [Constructor.changed, withStatements, Block.changed_always, Stmt.changed,
      Stmt.returning, LoweringContext.hook, LoweringContext.changed, Expr.changed,
      Invocation.forwarding_changed, hexpr]
  · simp [Constructor.changed, withStatements, Block.changed_always, Block.ofList, Stmt.changed,
      Stmt.returning, LoweringContext.hook, LoweringContext.changed, Expr.changed,
      Invocation.forwarding_changed]

theorem extendPreamble_changed (added : List Stmt) :
    (k.changed (.always ρ)).extendPreamble (added.map (Stmt.changed (.always ρ))) =
      (k.extendPreamble added).changed (.always ρ) := by
  unfold extendPreamble
  rw [statements_changed, boundary?_changed]
  cases k.body.statements with
  | nil => rfl
  | cons s rest =>
    cases s with
    | allocationGuard i body span =>
      cases k.boundary? with
      | none => rfl
      | some n =>
        simp [Constructor.changed, withStatements, Block.changed_always, Stmt.changed]
    | ite c t e s => cases e <;> rfl
    | _ => rfl

theorem lower_changed (role : Role) :
    (k.changed (.always ρ)).lower (x.changed ρ) role = (k.lower x role).changed (.always ρ) := by
  have hparam : (x.changed ρ).enclosingParam = x.enclosingParam := rfl
  have hhoisted : (x.changed ρ).hoisted = x.hoisted.map (Stmt.changed (.always ρ)) := rfl
  unfold lower
  rw [isLowered_changed, hparam, hhoisted, withEnclosingParam_changed, extendPreamble_changed,
    designatedForm_changed, delegatingForm_changed]
  cases role <;> split <;> rfl

end Constructor

end Constructors

section Declarations

theorem Expr.isDeclarable_changed (e : Expr) :
    (e.changed (.always ρ)).isDeclarable = e.isDeclarable := by
  cases e with
  | call receiver selector args method s => cases receiver <;> rfl
  | new type selector args o s => cases o <;> rfl
  | _ => rfl

namespace ClassDecl

variable (c : ClassDecl)

theorem isInterface_changed : (c.changed (.always ρ)).isInterface = c.isInterface := rfl

theorem header_changed : (c.changed (.always ρ)).header = c.header.changed (.always ρ) := rfl

theorem members_changed :
    (c.changed (.always ρ)).members = c.members.map (Member.changed (.always ρ)) :=
  changedEach_always _ _ _

theorem filterMap_members_changed {β γ : Type} {f : Member → Option β} {g : Member → Option γ}
    {h : γ → β} (hf : ∀ m : Member, f (m.changed (.always ρ)) = (g m).map h) :
    (c.changed (.always ρ)).members.filterMap f = (c.members.filterMap g).map h := by
  rw [members_changed, List.filterMap_map, List.map_filterMap]
  exact congrArg (c.members.filterMap ·) (funext hf)

theorem constructors_changed :
    (c.changed (.always ρ)).constructors =
      c.constructors.map (Constructor.changed (.always ρ)) :=
  filterMap_members_changed c fun m => by cases m <;> rfl

theorem fields_changed :
    (c.changed (.always ρ)).fields = c.fields.map (Field.changed (.always ρ)) :=
  filterMap_members_changed c fun m => by cases m <;> rfl

theorem stays_changed (f : Field) :
    (f.changed (.always ρ)).stays (c.changed (.always ρ)) = f.stays c := by
  obtain ⟨name, type, isStatic, isFinal, initializer, isSynthetic, span⟩ := f
  cases initializer with
  | none => rfl
  | some e =>
    have he : (e.changed (.always ρ)).isDeclarable = e.isDeclarable := Expr.isDeclarable_changed e
    change (c.isInterface || (isStatic && isFinal && (e.changed (.always ρ)).isDeclarable)) = _
    rw [he]
    rfl

theorem fieldAssignment_changed (side : Side) (f : Field) (e : Expr) :
    (c.changed (.always ρ)).fieldAssignment side (f.changed (.always ρ)) (e.changed (.always ρ)) =
      (c.fieldAssignment side f e).changed (.always ρ) := by
  rw [fieldAssignment, Expr.assignment, Expr.span_changed]
  rfl

theorem moved_changed (side : Side) (m : Member) :
    (c.changed (.always ρ)).moved side (m.changed (.always ρ)) =
      (c.moved side m).map (Stmt.changed (.always ρ)) := by
  cases m with
  | field f =>
    have hside : (f.changed (.always ρ)).side (c.changed (.always ρ)) = f.side c := rfl
    rw [Member.changed, moved, moved, hside, stays_changed]
    split
    · have hinitializer : (f.changed (.always ρ)).initializer =
          f.initializer.map (Expr.changed (.always ρ)) := rfl
      rw [hinitializer, Option.map_map, Option.map_map]
      congr 1
      funext e
      exact fieldAssignment_changed c side f e
    · rfl
  | block b =>
    have hside : (b.changed (.always ρ)).side = b.side := rfl
    rw [Member.changed, moved, moved, hside]
    split <;> rfl
  | constructor k => rfl
  | method f => rfl

theorem unmoved_changed (side : Side) (m : Member) :
    (c.changed (.always ρ)).unmoved side (m.changed (.always ρ)) =
      (c.unmoved side m).map (Member.changed (.always ρ)) := by
  cases m with
  | field f =>
    have hside : (f.changed (.always ρ)).side (c.changed (.always ρ)) = f.side c := rfl
    rw [Member.changed, unmoved, unmoved, hside, stays_changed]
    split <;> rfl
  | block b =>
    have hside : (b.changed (.always ρ)).side = b.side := rfl
    rw [Member.changed, unmoved, unmoved, hside]
    split <;> rfl
  | constructor k => rfl
  | method f => rfl

theorem preamble_changed (side : Side) :
    (c.changed (.always ρ)).preamble side = (c.preamble side).map (Stmt.changed (.always ρ)) :=
  filterMap_members_changed c (moved_changed c side)

end ClassDecl

theorem afterDeclarations_changed (k : Constructor) (ms : List Member) :
    afterDeclarations (k.changed (.always ρ)) (ms.map (Member.changed (.always ρ))) =
      (afterDeclarations k ms).map (Member.changed (.always ρ)) := by
  induction ms with
  | nil => rfl
  | cons m ms ih => cases m <;> simp [afterDeclarations, Member.changed, ih]

namespace ClassDecl

variable (o : Options) (c : ClassDecl)

theorem lacksConstructor_changed :
    (c.changed (.always ρ)).lacksConstructor = c.lacksConstructor := by
  rw [lacksConstructor, lacksConstructor, isInterface_changed, constructors_changed]
  cases c.constructors <;> rfl

theorem withImplicitConstructor_changed :
    (c.changed (.always ρ)).withImplicitConstructor o =
      (c.withImplicitConstructor o).changed (.always ρ) := by
  refine eq_of_header_of_members ?_ ?_
  · rw [header_changed, header_withImplicitConstructor, header_withImplicitConstructor,
      header_changed]
  · rw [members_changed, members_withImplicitConstructor, members_withImplicitConstructor,
      members_changed]
    unfold completed
    rw [lacksConstructor_changed]
    split
    · exact afterDeclarations_changed (.implicit o.defaultSelector) c.members
    · rfl

end ClassDecl

end Declarations

section Setup

variable (hρ : KeepsSame ρ)

include hρ

theorem intoLastGuard?_changed (type : TypeRef) (added ss : List Stmt) :
    intoLastGuard? (ρ type) (added.map (Stmt.changed (.always ρ)))
        (ss.map (Stmt.changed (.always ρ))) =
      (intoLastGuard? type added ss).map (List.map (Stmt.changed (.always ρ))) := by
  have hguard (s : Stmt) :
      (s.changed (.always ρ)).extendedGuard? (ρ type) (added.map (Stmt.changed (.always ρ))) =
        (s.extendedGuard? type added).map (Stmt.changed (.always ρ)) := by
    cases s with
    | classGuard guarded body span =>
      have hsame := hρ guarded type
      simp [Stmt.changed, Stmt.extendedGuard?, hsame, Block.changed_always]
    | ite c t e s => cases e <;> rfl
    | _ => rfl
  induction ss with
  | nil => rfl
  | cons s ss ih =>
    rw [List.map_cons, intoLastGuard?_cons, intoLastGuard?_cons, ih, hguard]
    cases intoLastGuard? type added ss with
    | some later => rfl
    | none => cases s.extendedGuard? type added <;> rfl

theorem withGuarded_changed (type : TypeRef) (added : List Stmt) (b : Block) :
    (b.changed (.always ρ)).withGuarded (ρ type) (added.map (Stmt.changed (.always ρ))) =
      (b.withGuarded type added).changed (.always ρ) := by
  rw [Block.changed_always, Block.changed_always]
  unfold Block.withGuarded
  dsimp only
  rw [intoLastGuard?_changed hρ]
  cases intoLastGuard? type added b.statements with
  | some later => rfl
  | none => simp [newGuard, Stmt.changed, Block.ofList, Block.changed_always]

theorem intoSetup?_changed (type : TypeRef) (added : List Stmt) (ms : List Member) :
    intoSetup? (ρ type) (added.map (Stmt.changed (.always ρ)))
        (ms.map (Member.changed (.always ρ))) =
      (intoSetup? type added ms).map (List.map (Member.changed (.always ρ))) := by
  induction ms with
  | nil => rfl
  | cons m ms ih =>
    cases m with
    | method f =>
      have hkind : (f.changed (.always ρ)).kind = f.kind := rfl
      rw [List.map_cons, Member.changed, intoSetup?_cons_method, intoSetup?_cons_method, ih, hkind]
      split
      · simp [Member.changed, Method.changed, withGuarded_changed hρ]
      · simp [Member.changed, Function.comp_def]
    | field f => simp [Member.changed, intoSetup?, ih, Function.comp_def]
    | block b => simp [Member.changed, intoSetup?, ih, Function.comp_def]
    | constructor k => simp [Member.changed, intoSetup?, ih, Function.comp_def]

theorem ClassDecl.settingUp_changed (o : Options) (c : ClassDecl) (statements : List Stmt)
    (ms : List Member) :
    (c.changed (.always ρ)).settingUp o (statements.map (Stmt.changed (.always ρ)))
        (ms.map (Member.changed (.always ρ))) =
      (c.settingUp o statements ms).map (Member.changed (.always ρ)) := by
  have htype : (c.changed (.always ρ)).type = ρ c.type := rfl
  unfold ClassDecl.settingUp
  rw [htype, intoSetup?_changed hρ]
  cases intoSetup? c.type statements ms with
  | some later => rfl
  | none =>
    simp [ClassDecl.newSetup, newGuard, Method.classSetup, Member.changed, Method.changed,
      Block.ofList, Block.changed_always, Stmt.changed, htype]

end Setup

section Phases

namespace ClassDecl

variable (hρ : KeepsSame ρ) (o : Options) (c : ClassDecl)

theorem enclosingAssignment_changed :
    (c.changed (.always ρ)).enclosingAssignment =
      c.enclosingAssignment.map (Stmt.changed (.always ρ)) := by
  unfold enclosingAssignment
  rw [enclosing_changed]
  cases c.enclosing <;> rfl

theorem isSome_enclosingParam?_changed (hc : c.isInterface = false) :
    c.enclosingParam?.isSome = (c.changed (.always ρ)).pointer?.isSome := by
  rw [enclosingParam?, pointer?, isInterface_changed, hc, enclosing_changed]
  cases c.enclosing <;> rfl

include hρ in
/-- Only the type of the parameter for the enclosing instance is not changed like the rest. -/
theorem loweringContext_changed (hc : c.isInterface = false) :
    (c.changed (.always ρ)).loweringContext o =
      ((c.loweringContext o).changed ρ).withPointer (c.changed (.always ρ)).pointer? := by
  have hparam : (c.changed (.always ρ)).enclosingParam? =
      c.enclosingParam?.map fun p =>
        { p with type := (c.changed (.always ρ)).pointer?.getD p.type } := by
    rw [enclosingParam?, enclosingParam?, pointer?, isInterface_changed, hc, enclosing_changed]
    cases c.enclosing <;> rfl
  have hhoisted : (c.changed (.always ρ)).withEnclosingReads
        ((c.changed (.always ρ)).preamble .ofInstance) =
      (c.withEnclosingReads (c.preamble .ofInstance)).map (Stmt.changed (.always ρ)) := by
    rw [preamble_changed, withEnclosingReads_changed hρ]
  rw [loweringContext, hparam, enclosingAssignment_changed, hhoisted]
  rfl

include hρ in
/-- What is retained of the constructors is changed but for the type of an added parameter. -/
theorem retained_changed_constructor (k : Constructor) :
    ∃ k', c.retained o (.constructor k) = some (.constructor k') ∧
      (c.changed (.always ρ)).retained o (.constructor (k.changed (.always ρ))) =
        some (.constructor ((k'.changed (.always ρ)).withPointer
          (c.changed (.always ρ)).pointer? k)) := by
  cases hc : c.isInterface with
  | true =>
    have hp : (c.changed (.always ρ)).pointer? = none := by simp [pointer?, isInterface_changed, hc]
    refine ⟨k, by simp [retained, hc, unmoved], ?_⟩
    rw [hp]
    simp [retained, isInterface_changed, hc, unmoved, Constructor.withPointer]
  | false =>
    have hx : ((c.loweringContext o).changed ρ).enclosingParam.isSome =
        (c.changed (.always ρ)).pointer?.isSome := isSome_enclosingParam?_changed c hc
    have hgains : (k.classified.changed (.always ρ)).gainsParam = k.gainsParam :=
      Constructor.gainsParam_changed k.classified
    have hlowered : (k.changed (.always ρ)).classified.lower
          ((c.changed (.always ρ)).loweringContext o)
          (k.changed (.always ρ)).classified.roleByBody =
        ((k.classified.lower (c.loweringContext o) k.classified.roleByBody).changed
          (.always ρ)).withPointer (c.changed (.always ρ)).pointer? k := by
      rw [loweringContext_changed hρ o c hc, Constructor.classified_changed,
        Constructor.roleByBody_changed, lower_withPointer hx, Constructor.lower_changed,
        withPointer_congr hgains]
    refine ⟨k.classified.lower (c.loweringContext o) k.classified.roleByBody, ?_, ?_⟩
    · simp [retained, hc, unmoved, Member.classified, Member.lowered]
    · simp [retained, isInterface_changed, hc, unmoved, Member.classified, Member.lowered, hlowered]

variable {c} in
theorem constructor?_of_unmoved {side : Side} {m m' : Member} (h : c.unmoved side m = some m') :
    m'.constructor? = m.constructor? := by
  obtain rfl | ⟨f, rfl, rfl⟩ := unmoved_cases h <;> rfl

theorem retained_of_constructor? {m : Member} (hm : m.constructor? = none) :
    c.retained o m =
      if c.isInterface then c.unmoved .ofClass m
      else (c.unmoved .ofInstance m).bind (c.unmoved .ofClass) := by
  have hclassified : m.classified = m := by
    cases m with
    | constructor k => cases hm
    | _ => rfl
  have hlowered : (c.unmoved .ofInstance m).map (Member.lowered (c.loweringContext o)) =
      c.unmoved .ofInstance m := by
    cases hu : c.unmoved .ofInstance m with
    | none => rfl
    | some m' =>
      have hm' : m'.constructor? = none := (constructor?_of_unmoved hu).trans hm
      cases m' with
      | constructor k => cases hm'
      | _ => rfl
  rw [retained, hclassified, hlowered]

theorem retained_changed {m : Member} (hm : m.constructor? = none) :
    (c.changed (.always ρ)).retained o (m.changed (.always ρ)) =
      (c.retained o m).map (Member.changed (.always ρ)) := by
  have hchanged : (m.changed (.always ρ)).constructor? = none := by
    cases m with
    | constructor k => cases hm
    | _ => rfl
  rw [retained_of_constructor? o _ hchanged, retained_of_constructor? o c hm, isInterface_changed,
    unmoved_changed, unmoved_changed]
  split
  · rfl
  · cases c.unmoved .ofInstance m with
    | none => rfl
    | some m' => exact unmoved_changed c .ofClass m'

include hρ in
theorem retainedMembers_changed :
    (c.changed (.always ρ)).retainedMembers o =
      pointParams (c.changed (.always ρ)).pointer? (c.withImplicitConstructor o).constructors
        ((c.retainedMembers o).map (Member.changed (.always ρ))) := by
  rw [retainedMembers, withImplicitConstructor_changed, members_changed, List.filterMap_map,
    retainedMembers, List.map_filterMap]
  refine pointParams_filterMap (fun k => ?_) (fun m hm => ?_) _
  · obtain ⟨k', hk, hk'⟩ := retained_changed_constructor hρ o c k
    exact ⟨k'.changed (.always ρ), by rw [hk]; rfl, hk'⟩
  · refine ⟨retained_changed o c hm, fun m' hm' => ?_⟩
    obtain ⟨old, hold, rfl⟩ := Option.map_eq_some_iff.mp hm'
    have hk : old.constructor? = none := by
      rw [retained_of_constructor? o c hm] at hold
      split at hold
      · exact (constructor?_of_unmoved hold).trans hm
      · obtain ⟨between, hu, hu'⟩ := Option.bind_eq_some_iff.mp hold
        exact ((constructor?_of_unmoved hu').trans (constructor?_of_unmoved hu)).trans hm
    cases old with
    | constructor k => cases hk
    | _ => rfl

theorem addedField_changed :
    (c.changed (.always ρ)).addedField =
      c.pointField (c.changed (.always ρ)).pointer?
        (c.addedField.map (Member.changed (.always ρ))) := by
  have hfield (x : String) : ((c.changed (.always ρ)).field? x).isSome = (c.field? x).isSome := by
    refine isSome_field?_congr ?_ x
    rw [fields_changed, List.map_map]
    rfl
  unfold pointField pointer? addedField
  rw [enclosing_changed, isInterface_changed]
  cases c.enclosing with
  | nil => rfl
  | cons link rest =>
    have hname : (link.changed (.always ρ)).field = link.field := rfl
    simp only [List.map_cons, hname, hfield]
    cases c.isInterface with
    | true => rfl
    | false => cases (c.field? link.field).isSome <;> rfl

def settledMembers : List Member :=
  match c.preamble .ofClass with
  | [] => c.retainedMembers o
  | s :: ss => c.settingUp o (s :: ss) (c.retainedMembers o)

theorem members_initialized_eq :
    (c.initialized o).members = c.addedField ++ c.settledMembers o := by
  have hpreamble := preamble_ofClass_lowered_withRoles o c
  have hsetup : ((c.withRoles o).lowered o).settingUp o = c.settingUp o :=
    eq_of_header (settingUp o) (fun _ => rfl) (by simp)
  have hmembers := members_lowered_withoutPreamble c o
  unfold initialized settledMembers
  split
  · rename_i hp
    rw [withClassSetup_of_preamble (hpreamble.trans hp), ← hmembers,
      withoutPreamble_of_preamble (hpreamble.trans hp)]
  · rename_i s ss hp
    rw [members_withClassSetup o _ (by simp [hpreamble, hp]), hpreamble, hp, hsetup,
      ← settingUp_addedField, ← hmembers]
    rfl

include hρ in
theorem settledMembers_changed :
    (c.changed (.always ρ)).settledMembers o =
      pointParams (c.changed (.always ρ)).pointer? (c.withImplicitConstructor o).constructors
        ((c.settledMembers o).map (Member.changed (.always ρ))) := by
  unfold settledMembers
  rw [preamble_changed, retainedMembers_changed hρ]
  cases c.preamble .ofClass with
  | nil => rfl
  | cons s ss =>
    have hsetup := settingUp_changed hρ o c (s :: ss) (c.retainedMembers o)
    rw [List.map_cons] at hsetup ⊢
    dsimp only
    rw [settingUp_pointParams, hsetup]

include hρ in
theorem initialized_changed :
    (c.changed (.always ρ)).initialized o =
      c.withPointers o (c.changed (.always ρ)).pointer?
        ((c.initialized o).changed (.always ρ)) := by
  have hsame (d : ClassDecl) : (d.initialized o).header = d.header := by simp [initialized]
  refine eq_of_header_of_members ?_ ?_
  · have hpointers : (c.withPointers o (c.changed (.always ρ)).pointer?
        ((c.initialized o).changed (.always ρ))).header =
        ((c.initialized o).changed (.always ρ)).header := rfl
    rw [hpointers, hsame, header_changed, header_changed, hsame]
  · have hfront (text? : Option String) (sources : List Constructor) (ms : List Member) :
        pointParams text? sources
            (c.pointField text? (c.addedField.map (Member.changed (.always ρ)) ++ ms)) =
          c.pointField text? (c.addedField.map (Member.changed (.always ρ))) ++
            pointParams text? sources ms := by
      obtain h | ⟨f, _, h⟩ := addedField_cases c
      · simp [pointField, h]
      · simp [pointField, h, Member.changed, Member.retyped]
    rw [members_initialized_eq, settledMembers_changed hρ, addedField_changed, ← hfront,
      withPointers, members_changed, members_initialized_eq, List.map_append]

theorem withRespelling_changed :
    (c.changed (.always ρ)).withRespelling o =
      (c.withRespelling o).map (ClassDecl.changed (.always ρ)) id := by
  unfold withRespelling
  split
  · have hmembers : (c.changed (.always ρ)).members.mapM Member.respelled =
        List.map (Member.changed (.always ρ)) <$> c.members.mapM Member.respelled := by
      rw [members_changed]
      induction c.members with
      | nil => simp
      | cons m ms ih => simp [Member.respelled_changed, ih]
    have hform (members : List Member) :
        { c.changed (.always ρ) with members := members.map (Member.changed (.always ρ)) } =
          ClassDecl.changed (.always ρ) { c with members } :=
      eq_of_header_of_members rfl (members_changed { c with members }).symm
    rw [respelled, hmembers]
    exact Prod.ext (hform _) rfl
  · rfl

include hρ in
theorem withRespelling_initialized_changed :
    ((c.changed (.always ρ)).initialized o).withRespelling o =
      ((c.initialized o).withRespelling o).map
        (fun c' => c.withPointers o (c.changed (.always ρ)).pointer? (c'.changed (.always ρ)))
        id := by
  rw [initialized_changed hρ, withRespelling_withPointers, withRespelling_changed]
  rfl

end ClassDecl

end Phases

end ExplicitInit
