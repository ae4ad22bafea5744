import ExplicitInit.Proofs.Idempotence
import ExplicitInit.Proofs.KeptMembers

namespace ExplicitInit

section Places

variable {type : TypeRef} {added : List Stmt}

theorem intoSetup?_cons_of_isMethod {m : Member} (h : m.isMethod = false) (ms : List Member) :
    intoSetup? type added (m :: ms) = (intoSetup? type added ms).map (m :: ·) := by
  cases m with
  | method f => cases h
  | _ => rfl

theorem intoSetup?_cons_method (f : Method) (ms : List Member) :
    intoSetup? type added (.method f :: ms) =
      if f.kind = .classSetup then
        some (.method { f with body := f.body.withGuarded type added } :: ms)
      else (intoSetup? type added ms).map (.method f :: ·) := rfl

theorem intoSetup?_filterMap {g : Member → Option Member}
    (hmethod : ∀ f, g (.method f) = some (.method f))
    (hother : ∀ m m', m.isMethod = false → g m = some m' → m'.isMethod = false)
    (ms : List Member) :
    intoSetup? type added (ms.filterMap g) =
      (intoSetup? type added ms).map (List.filterMap g) := by
  induction ms with
  | nil => rfl
  | cons m ms ih =>
    have skip (hm : m.isMethod = false) : intoSetup? type added ((m :: ms).filterMap g) =
        (intoSetup? type added (m :: ms)).map (List.filterMap g) := by
      rw [intoSetup?_cons_of_isMethod hm, Option.map_map]
      cases hg : g m with
      | none =>
        rw [List.filterMap_cons_none hg, ih]
        congr 1
        funext later
        exact (List.filterMap_cons_none hg).symm
      | some m' =>
        rw [List.filterMap_cons_some hg, intoSetup?_cons_of_isMethod (hother m m' hm hg), ih,
          Option.map_map]
        congr 1
        funext later
        exact (List.filterMap_cons_some hg).symm
    cases m with
    | method f =>
      rw [List.filterMap_cons_some (hmethod f), intoSetup?_cons_method, intoSetup?_cons_method, ih]
      by_cases hf : f.kind = .classSetup
      · rw [if_pos hf, if_pos hf, Option.map_some, List.filterMap_cons_some (hmethod _)]
      · rw [if_neg hf, if_neg hf, Option.map_map, Option.map_map]
        congr 1
        funext later
        exact (List.filterMap_cons_some (hmethod f)).symm
    | field f => exact skip rfl
    | block b => exact skip rfl
    | constructor k => exact skip rfl

def afterDeclarations (k : Constructor) : List Member → List Member
  | .field f :: ms => .field f :: afterDeclarations k ms
  | .block b :: ms => .block b :: afterDeclarations k ms
  | .constructor k' :: ms => .constructor k :: .constructor k' :: ms
  | .method f :: ms => .constructor k :: .method f :: ms
  | [] => [.constructor k]

theorem afterDeclarations_eq (k : Constructor) (c : ClassDecl) :
    (c.insertAt c.implicitPosition (.constructor k)).members = afterDeclarations k c.members := by
  obtain ⟨type, kind, superclass, enclosing, ms, span⟩ := c
  unfold ClassDecl.insertAt ClassDecl.implicitPosition
  dsimp only
  induction ms with
  | nil => rfl
  | cons m ms ih =>
    cases m with
    | field f => exact congrArg (Member.field f :: ·) ih
    | block b => exact congrArg (Member.block b :: ·) ih
    | constructor k' => rfl
    | method f => rfl

theorem intoSetup?_afterDeclarations (k : Constructor) (ms : List Member) :
    intoSetup? type added (afterDeclarations k ms) =
      (intoSetup? type added ms).map (afterDeclarations k) := by
  induction ms with
  | nil => rfl
  | cons m ms ih =>
    cases m with
    | field f => simp [afterDeclarations, intoSetup?, ih, Function.comp_def]
    | block b => simp [afterDeclarations, intoSetup?, ih, Function.comp_def]
    | constructor k' => simp [afterDeclarations, intoSetup?, Function.comp_def]
    | method f =>
      by_cases hf : f.kind = .classSetup
      · simp [afterDeclarations, intoSetup?, hf]
      · simp [afterDeclarations, intoSetup?, hf, Function.comp_def]

theorem afterDeclarations_append_method (k : Constructor) (ms : List Member) (f : Method) :
    afterDeclarations k (ms ++ [.method f]) = afterDeclarations k ms ++ [.method f] := by
  induction ms with
  | nil => rfl
  | cons m ms ih => cases m <;> simp [afterDeclarations, ih]

theorem filterMap_afterDeclarations {g : Member → Option Member}
    (hconstructor : ∀ k, g (.constructor k) = some (.constructor k))
    (hmethod : ∀ f, g (.method f) = some (.method f))
    (hother : ∀ m m', m.declaration?.isSome = true → g m = some m' →
      m'.declaration?.isSome = true)
    (k : Constructor) (ms : List Member) :
    (afterDeclarations k ms).filterMap g = afterDeclarations k (ms.filterMap g) := by
  induction ms with
  | nil => simp [afterDeclarations, hconstructor]
  | cons m ms ih =>
    have skip (hm : m.declaration?.isSome = true)
        (hk : afterDeclarations k (m :: ms) = m :: afterDeclarations k ms) :
        (afterDeclarations k (m :: ms)).filterMap g =
          afterDeclarations k ((m :: ms).filterMap g) := by
      rw [hk]
      cases hg : g m with
      | none => rw [List.filterMap_cons_none hg, List.filterMap_cons_none hg, ih]
      | some m' =>
        rw [List.filterMap_cons_some hg, List.filterMap_cons_some hg, ih]
        cases m' with
        | field f => rfl
        | block b => rfl
        | constructor k' => cases hother m _ hm hg
        | method f => cases hother m _ hm hg
    cases m with
    | field f => exact skip rfl rfl
    | block b => exact skip rfl rfl
    | constructor k' => simp [afterDeclarations, hconstructor]
    | method f => simp [afterDeclarations, hconstructor, hmethod]

end Places

namespace ClassDecl

section Sides

variable (c : ClassDecl)

theorem unmoved_field_comm (side other : Side) (f : Field) :
    (c.unmoved side (.field f)).bind (c.unmoved other) =
      if (f.side c == side && !f.stays c) = true ∨ (f.side c == other && !f.stays c) = true then
        some (.field { f with initializer := none })
      else some (.field f) := by
  have hclear : c.unmoved other (.field { f with initializer := none }) =
      some (.field { f with initializer := none }) := unmoved_of_moved (moved_clear c other f)
  by_cases hs : (f.side c == side && !f.stays c) = true
  · rw [if_pos (.inl hs), unmoved, if_pos hs, Option.bind_some, hclear]
  · rw [unmoved, if_neg hs, Option.bind_some, unmoved]
    by_cases ho : (f.side c == other && !f.stays c) = true
    · rw [if_pos ho, if_pos (.inr ho)]
    · rw [if_neg ho, if_neg (not_or.mpr ⟨hs, ho⟩)]

theorem unmoved_comm (side other : Side) (m : Member) :
    (c.unmoved side m).bind (c.unmoved other) = (c.unmoved other m).bind (c.unmoved side) := by
  cases m with
  | field f =>
    rw [unmoved_field_comm, unmoved_field_comm]
    simp only [or_comm]
  | block b =>
    by_cases hs : (b.side == side) = true <;> by_cases ho : (b.side == other) = true <;>
      simp [unmoved, hs, ho]
  | constructor k => rfl
  | method f => rfl

theorem declaration?_of_unmoved {c : ClassDecl} {side : Side} {m m' : Member}
    (hm : m.declaration?.isSome = true) (hu : c.unmoved side m = some m') :
    m'.declaration?.isSome = true := by
  obtain rfl | ⟨f, rfl, rfl⟩ := unmoved_cases hu
  · exact hm
  · rfl

end Sides

section Phases

variable (o : Options) (c : ClassDecl)

def instanceForm (m : Member) : Option Member :=
  (c.unmoved .ofInstance m.classified).map (Member.lowered (c.loweringContext o))

theorem instanceForm_of_declaration? {m : Member} (h : m.declaration?.isSome = true) :
    c.instanceForm o m = c.unmoved .ofInstance m := by
  cases m with
  | field f => rfl
  | block b => by_cases hb : (b.side == .ofInstance) = true <;> simp [instanceForm, unmoved,
      Member.classified, Member.lowered, hb]
  | constructor k => cases h
  | method f => cases h

theorem isMethod_instanceForm {m m' : Member} (hm : m.isMethod = false)
    (h : c.instanceForm o m = some m') : m'.isMethod = false := by
  cases m with
  | field f => cases Option.some.inj h; rfl
  | block b =>
    by_cases hb : (b.side == .ofInstance) = true
    · simp [instanceForm, unmoved, Member.classified, hb] at h
    · have hs : some (Member.block b) = some m' := by
        simpa [instanceForm, unmoved, Member.classified, Member.lowered, hb] using h
      cases Option.some.inj hs
      rfl
  | constructor k => cases Option.some.inj h; rfl
  | method f => cases hm

theorem instanceForm_comm (m : Member) :
    (c.instanceForm o m).bind (c.unmoved .ofClass) =
      (c.unmoved .ofClass m).bind (c.instanceForm o) := by
  have hdeclared (hm : m.declaration?.isSome = true) :
      (c.instanceForm o m).bind (c.unmoved .ofClass) =
        (c.unmoved .ofClass m).bind (c.instanceForm o) := by
    rw [instanceForm_of_declaration? o c hm, unmoved_comm]
    refine Option.bind_congr fun m' hm' => ?_
    exact (instanceForm_of_declaration? o c (declaration?_of_unmoved hm hm')).symm
  cases m with
  | field f => exact hdeclared rfl
  | block b => exact hdeclared rfl
  | constructor k => rfl
  | method f => rfl

def settingUp (statements : List Stmt) (ms : List Member) : List Member :=
  (intoSetup? c.type statements ms).getD (ms ++ [.method (c.newSetup o statements)])

theorem members_withClassSetup (h : c.preamble .ofClass ≠ []) :
    (c.withClassSetup o).members =
      c.settingUp o (c.preamble .ofClass) (c.members.filterMap (c.unmoved .ofClass)) := by
  have hp : ¬ (c.preamble .ofClass).isEmpty = true := fun hn => h (List.isEmpty_iff.mp hn)
  unfold withClassSetup settingUp
  dsimp only
  rw [if_neg hp]
  split
  · rename_i ms hs
    rw [show intoSetup? c.type _ (c.members.filterMap (c.unmoved .ofClass)) = some ms from hs]
    rfl
  · rename_i hs
    rw [show intoSetup? c.type _ (c.members.filterMap (c.unmoved .ofClass)) = none from hs]
    rfl

def completed (ms : List Member) : List Member :=
  if c.lacksConstructor then afterDeclarations (.implicit o.defaultSelector) ms else ms

theorem members_withImplicitConstructor :
    (c.withImplicitConstructor o).members = c.completed o c.members := by
  unfold withImplicitConstructor completed
  split
  · exact afterDeclarations_eq _ c
  · rfl

variable {c}

theorem settingUp_addedField (statements : List Stmt) (ms : List Member) :
    c.settingUp o statements (c.addedField ++ ms) =
      c.addedField ++ c.settingUp o statements ms := by
  unfold settingUp
  rw [intoSetup?_addedField]
  cases intoSetup? c.type statements ms with
  | some later => rfl
  | none => simp

theorem settingUp_filterMap_instanceForm (statements : List Stmt) (ms : List Member) :
    c.settingUp o statements (ms.filterMap (c.instanceForm o)) =
      (c.settingUp o statements ms).filterMap (c.instanceForm o) := by
  unfold settingUp
  rw [intoSetup?_filterMap (g := c.instanceForm o) (fun _ => rfl) fun _ _ =>
    isMethod_instanceForm o c]
  cases intoSetup? c.type statements ms with
  | some later => rfl
  | none =>
    rw [Option.map_none, Option.getD_none, Option.getD_none, List.filterMap_append]
    rfl

theorem settingUp_completed (statements : List Stmt) (ms : List Member) :
    c.settingUp o statements (c.completed o ms) = c.completed o (c.settingUp o statements ms) := by
  unfold settingUp completed
  split
  · rw [intoSetup?_afterDeclarations]
    cases intoSetup? c.type statements ms with
    | some later => rfl
    | none => exact (afterDeclarations_append_method _ ms _).symm
  · rfl

theorem completed_filterMap_unmoved (side : Side) (ms : List Member) :
    (c.completed o ms).filterMap (c.unmoved side) =
      c.completed o (ms.filterMap (c.unmoved side)) := by
  unfold completed
  split
  · exact filterMap_afterDeclarations (g := c.unmoved side) (fun _ => rfl) (fun _ => rfl)
      (fun _ _ => declaration?_of_unmoved) _ ms
  · rfl

end Phases

section Order

variable (o : Options) (c : ClassDecl)

theorem isInterface_withClassSetup : (c.withClassSetup o).isInterface = c.isInterface :=
  eq_of_header isInterface (fun _ => rfl) (header_withClassSetup o c)

theorem lacksConstructor_withClassSetup :
    (c.withClassSetup o).lacksConstructor = c.lacksConstructor := by
  rw [lacksConstructor, isInterface_withClassSetup, constructors_withClassSetup]
  rfl

theorem preamble_ofInstance_withClassSetup :
    (c.withClassSetup o).preamble .ofInstance = c.preamble .ofInstance := by
  have hm : ∀ m, (c.unmoved .ofClass m).bind (c.moved .ofInstance) = c.moved .ofInstance m :=
    moved_of_unmoved_other (by decide)
  rw [preamble_eq_declarations, moved_of_header (header_withClassSetup o c),
    declarations_withClassSetup, List.filterMap_filterMap, preamble_eq_declarations]
  exact congrArg (c.declarations.filterMap ·) (funext hm)

theorem addedField_withClassSetup : (c.withClassSetup o).addedField = c.addedField := by
  have hd : (c.withClassSetup o).declarations = (c.withoutPreamble .ofClass).declarations := by
    rw [declarations_withClassSetup, declarations_withoutPreamble]
  have hn : (c.withClassSetup o).fields.map Field.name = c.fields.map Field.name := by
    rw [fields_congr hd, map_name_fields_withoutPreamble]
  have he : (c.withClassSetup o).enclosing = c.enclosing :=
    eq_of_header enclosing (fun _ => rfl) (header_withClassSetup o c)
  unfold addedField
  rw [he]
  cases c.enclosing with
  | nil => rfl
  | cons link rest =>
    dsimp only
    rw [isInterface_withClassSetup, isSome_field?_congr hn]

theorem preamble_ofClass_lowered_withRoles :
    ((c.withRoles o).lowered o).preamble .ofClass = c.preamble .ofClass := by
  rw [preamble_ofClass_lowered, preamble_withRoles]

theorem instanceForm_congr {d : ClassDecl} (h : d.header = c.header)
    (hp : d.preamble .ofInstance = c.preamble .ofInstance) :
    d.instanceForm o = c.instanceForm o := by
  funext m
  rw [instanceForm, unmoved_of_header h, loweringContext_congr o h hp]
  rfl

/-- The members come out in the same places whether the static preamble is taken last or first. -/
theorem members_phases_comm (hc : c.isInterface = false) (hp : c.preamble .ofClass ≠ []) :
    (((c.withRoles o).lowered o).withClassSetup o).members =
      (((c.withClassSetup o).withRoles o).lowered o).members := by
  have hlast : (c.withClassSetup o).isInterface = false :=
    (isInterface_withClassSetup o c).trans hc
  have hheader : ((c.withRoles o).lowered o).header = c.header := by simp
  have hsetup : ((c.withRoles o).lowered o).settingUp o = c.settingUp o :=
    eq_of_header (settingUp o) (fun _ => rfl) hheader
  have hretained : c.retained o = fun m => (c.unmoved .ofClass m).bind (c.instanceForm o) := by
    funext m
    rw [retained, if_neg (by simp [hc]), ← instanceForm_comm]
    rfl
  have hform : (c.withClassSetup o).instanceForm o = c.instanceForm o :=
    instanceForm_congr o c (header_withClassSetup o c) (preamble_ofInstance_withClassSetup o c)
  have hcompleted : (c.withClassSetup o).completed o = c.completed o := by
    unfold completed
    rw [lacksConstructor_withClassSetup]
  calc (((c.withRoles o).lowered o).withClassSetup o).members
      = c.settingUp o (c.preamble .ofClass)
          (((c.withRoles o).lowered o).withoutPreamble .ofClass).members := by
        rw [members_withClassSetup o _ (by rwa [preamble_ofClass_lowered_withRoles]),
          preamble_ofClass_lowered_withRoles, hsetup]
        rfl
    _ = c.addedField ++ c.settingUp o (c.preamble .ofClass) (c.retainedMembers o) := by
        rw [members_lowered_withoutPreamble, settingUp_addedField]
    _ = c.addedField ++ c.settingUp o (c.preamble .ofClass)
          ((c.completed o (c.members.filterMap (c.unmoved .ofClass))).filterMap
            (c.instanceForm o)) := by
        rw [retainedMembers, hretained, ← List.filterMap_filterMap,
          members_withImplicitConstructor, completed_filterMap_unmoved]
    _ = c.addedField ++ (c.completed o (c.withClassSetup o).members).filterMap
          (c.instanceForm o) := by
        rw [settingUp_filterMap_instanceForm, settingUp_completed, ← members_withClassSetup o c hp]
    _ = (((c.withClassSetup o).withRoles o).lowered o).members := by
        rw [members_lowered _ o hlast, addedField_withClassSetup, members_withImplicitConstructor,
          hcompleted, ← hform]
        rfl

theorem eq_of_header_of_members {c d : ClassDecl} (h : d.header = c.header)
    (hm : d.members = c.members) : d = c := by
  calc d = { d.header with members := d.members } := rfl
    _ = { c.header with members := c.members } := by rw [h, hm]

theorem phases_comm :
    ((c.withRoles o).lowered o).withClassSetup o =
      ((c.withClassSetup o).withRoles o).lowered o := by
  cases hc : c.isInterface with
  | true =>
    have hlast : (c.withClassSetup o).isInterface = true :=
      (isInterface_withClassSetup o c).trans hc
    rw [withRoles_of_interface o c hc, lowered_of_interface o hc,
      withRoles_of_interface o _ hlast, lowered_of_interface o hlast]
  | false =>
    by_cases hp : c.preamble .ofClass = []
    · rw [withClassSetup_of_preamble hp,
        withClassSetup_of_preamble ((preamble_ofClass_lowered_withRoles o c).trans hp)]
    · exact eq_of_header_of_members (by simp) (members_phases_comm o c hc hp)

theorem constructors_withRoles_withClassSetup (h : c.isInterface = false) :
    ((c.withClassSetup o).withRoles o).constructors = (c.withRoles o).constructors := by
  have hlast : (c.withClassSetup o).isInterface = false := (isInterface_withClassSetup o c).trans h
  rw [constructors_withRoles o hlast, constructors_withRoles o h,
    constructors_withImplicitConstructor o hlast, constructors_withImplicitConstructor o h,
    constructors_withClassSetup]

theorem preamble_ofInstance_withRoles_withClassSetup :
    ((c.withClassSetup o).withRoles o).preamble .ofInstance =
      (c.withRoles o).preamble .ofInstance := by
  rw [preamble_withRoles, preamble_withRoles, preamble_ofInstance_withClassSetup]

theorem roles_withRoles_withClassSetup :
    ((c.withClassSetup o).withRoles o).roles.map Prod.snd = (c.withRoles o).roles.map Prod.snd := by
  have hlast : ((c.withClassSetup o).withRoles o).isInterface = c.isInterface := by
    rw [isInterface_withRoles, isInterface_withClassSetup]
  have hfirst : (c.withRoles o).isInterface = c.isInterface := isInterface_withRoles o c
  cases hc : c.isInterface with
  | true => simp [roles, hlast, hfirst, hc]
  | false =>
    rw [roles_eq (hlast.trans hc), roles_eq (hfirst.trans hc),
      constructors_withRoles_withClassSetup o c hc]

theorem loweringCount_congr {c d : ClassDecl} (hk : d.constructors = c.constructors)
    (roles : List Role) : d.loweringCount roles = c.loweringCount roles := by
  rw [loweringCount, hk]
  rfl

theorem instanceMoved_congr {c d : ClassDecl} (h : d.header = c.header)
    (hp : d.preamble .ofInstance = c.preamble .ofInstance) (hk : d.constructors = c.constructors)
    (roles : List Role) : d.instanceMoved o roles = c.instanceMoved o roles := by
  have hextends : d.extendsLowered roles = c.extendsLowered roles := by
    rw [extendsLowered, hp, hk]
    rfl
  rw [instanceMoved, loweringContext_congr o h hp, loweringCount_congr hk, hextends]
  rfl

end Order

end ClassDecl

namespace Progress

variable (o : Options)

theorem decl_resolveAndHoist (p : Progress) :
    (p.resolveAndHoist o).decl = (p.decl.withRoles o).lowered o := by
  unfold resolveAndHoist hoist resolve
  dsimp only
  split
  · rename_i hc
    exact (ClassDecl.lowered_of_interface o hc).symm
  · rfl

theorem summary_resolveAndHoist (p : Progress) :
    (p.resolveAndHoist o).summary =
      let resolved := p.decl.withRoles o
      let roles := resolved.roles.map Prod.snd
      { p.summary with
        constructorAdded := p.decl.lacksConstructor || p.summary.constructorAdded
        constructorsLowered :=
          if p.decl.isInterface then p.summary.constructorsLowered
          else resolved.loweringCount roles
        instanceMoved :=
          if p.decl.isInterface then p.summary.instanceMoved
          else resolved.instanceMoved o roles } := by
  have hi : (p.decl.withRoles o).isInterface = p.decl.isInterface :=
    ClassDecl.isInterface_withRoles o p.decl
  unfold resolveAndHoist hoist resolve
  dsimp only
  rw [hi]
  cases p.decl.lacksConstructor <;> cases p.decl.isInterface <;> rfl

theorem summary_consolidate (p : Progress) :
    (p.consolidate o).summary =
      { p.summary with
        staticMoved :=
          if (p.decl.preamble .ofClass).isEmpty then p.summary.staticMoved
          else (p.decl.preamble .ofClass).length } := by
  unfold consolidate
  dsimp only
  split <;> rfl

/-- A run takes a class through the phases in this order. -/
theorem normalize_eq_respell (c : ClassDecl) :
    c.normalize o =
      match c.fault? with
      | some fault => .error fault
      | none => .ok (((resolveAndHoist o ⟨c, .zero⟩).consolidate o).respell o) := by
  have hi : (c.withRoles o).isInterface = c.isInterface := ClassDecl.isInterface_withRoles o c
  have hdecl : ((resolveAndHoist o ⟨c, .zero⟩).consolidate o).decl = c.initialized o :=
    congrArg (ClassDecl.withClassSetup o) (decl_resolveAndHoist o ⟨c, .zero⟩)
  have hlowering : (c.withRoles o).loweringSummary o ((c.withRoles o).roles.map Prod.snd) =
      { (resolveAndHoist o ⟨c, .zero⟩).summary with constructorAdded := false } := by
    rw [summary_resolveAndHoist, ClassDecl.loweringSummary, hi]
    cases c.isInterface <;> rfl
  have hadded : (resolveAndHoist o ⟨c, .zero⟩).summary.constructorAdded = c.lacksConstructor := by
    rw [summary_resolveAndHoist]
    exact Bool.or_false _
  have hstatic : (resolveAndHoist o ⟨c, .zero⟩).summary.staticMoved = 0 := by
    rw [summary_resolveAndHoist]
    rfl
  have hchanges : c.changes o = (((resolveAndHoist o ⟨c, .zero⟩).consolidate o).respell o).2 := by
    unfold ClassDecl.changes respell
    dsimp only
    rw [hdecl, hlowering, summary_consolidate, decl_resolveAndHoist, hadded, hstatic]
    cases ((c.withRoles o).lowered o).preamble .ofClass <;> rfl
  have hresult : ((resolveAndHoist o ⟨c, .zero⟩).consolidate o).respell o =
      (c.normalized o, c.changes o) := by
    rw [hchanges, ClassDecl.normalized, ← hdecl]
    rfl
  unfold ClassDecl.normalize
  cases c.fault? with
  | some fault => rfl
  | none => exact congrArg Except.ok hresult.symm

/-- The phases for the instance and the one for the class may change places. -/
theorem resolveAndHoist_consolidate (p : Progress) :
    (p.resolveAndHoist o).consolidate o = (p.consolidate o).resolveAndHoist o := by
  have hdecl : ((p.resolveAndHoist o).consolidate o).decl =
      ((p.consolidate o).resolveAndHoist o).decl := by
    calc ((p.resolveAndHoist o).consolidate o).decl
        = ((p.decl.withRoles o).lowered o).withClassSetup o :=
          congrArg (ClassDecl.withClassSetup o) (decl_resolveAndHoist o p)
      _ = ((p.decl.withClassSetup o).withRoles o).lowered o := ClassDecl.phases_comm o p.decl
      _ = ((p.consolidate o).resolveAndHoist o).decl :=
          (decl_resolveAndHoist o (p.consolidate o)).symm
  have hsummary : ((p.resolveAndHoist o).consolidate o).summary =
      ((p.consolidate o).resolveAndHoist o).summary := by
    have hconsolidated : (p.consolidate o).decl = p.decl.withClassSetup o := rfl
    have hroles := ClassDecl.roles_withRoles_withClassSetup o p.decl
    rw [summary_consolidate, summary_resolveAndHoist, summary_resolveAndHoist, summary_consolidate,
      decl_resolveAndHoist, ClassDecl.preamble_ofClass_lowered_withRoles, hconsolidated,
      ClassDecl.lacksConstructor_withClassSetup, ClassDecl.isInterface_withClassSetup]
    dsimp only
    cases hc : p.decl.isInterface with
    | true => rfl
    | false =>
      have hk := ClassDecl.constructors_withRoles_withClassSetup o p.decl hc
      rw [hroles, ClassDecl.loweringCount_congr hk, ClassDecl.instanceMoved_congr o (by simp)
        (ClassDecl.preamble_ofInstance_withRoles_withClassSetup o p.decl) hk]
  calc (p.resolveAndHoist o).consolidate o
      = ⟨((p.resolveAndHoist o).consolidate o).decl,
          ((p.resolveAndHoist o).consolidate o).summary⟩ := rfl
    _ = (p.consolidate o).resolveAndHoist o := by rw [hdecl, hsummary]

end Progress

end ExplicitInit
