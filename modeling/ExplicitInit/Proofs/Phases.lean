import ExplicitInit.Normalize
import ExplicitInit.Proofs.Respelling

namespace ExplicitInit

def Member.lowered (x : LoweringContext) : Member → Member
  | .constructor k => .constructor (k.lower x k.roleByBody)
  | m => m

def Constructor.adjusted (w : Rewriter Id) (k : Constructor) : Constructor :=
  { k with body := w.mapBlock k.body }

def Method.adjusted (w : Rewriter Id) (m : Method) : Method :=
  { m with body := w.mapBlock m.body }

def Member.adjusted (w : Rewriter Id) : Member → Member
  | .constructor k => .constructor (k.adjusted w)
  | .method m => if m.kind = .classSetup then .method (m.adjusted w) else .method m
  | m => m

namespace ClassDecl

def header (c : ClassDecl) : ClassDecl :=
  { c with members := [] }

/-- What looks at the header alone finds the same in classes that have the same one. -/
theorem eq_of_header {β : Type} (f : ClassDecl → β) (hf : ∀ e, f e.header = f e) {c d : ClassDecl}
    (h : d.header = c.header) : f d = f c := by
  rw [← hf d, h, hf c]

section Roles

variable (o : Options) (c : ClassDecl)

@[simp] theorem header_withImplicitConstructor :
    (c.withImplicitConstructor o).header = c.header := by
  unfold withImplicitConstructor
  split <;> rfl

@[simp] theorem header_withRoles : (c.withRoles o).header = c.header := by
  unfold withRoles
  split
  · rfl
  · exact header_withImplicitConstructor o c

theorem withRoles_of_interface (h : c.isInterface = true) : c.withRoles o = c := by
  simp [withRoles, h]

theorem isInterface_withRoles : (c.withRoles o).isInterface = c.isInterface :=
  eq_of_header isInterface (fun _ => rfl) (header_withRoles o c)

theorem filterMap_withImplicitConstructor {β : Type} {f : Member → Option β}
    (hf : ∀ k, f (.constructor k) = none) :
    (c.withImplicitConstructor o).members.filterMap f = c.members.filterMap f := by
  unfold withImplicitConstructor
  split
  · change (c.members.take _ ++ _ :: c.members.drop _).filterMap f = _
    rw [List.filterMap_append, List.filterMap_cons_none (hf _), ← List.filterMap_append,
      List.take_append_drop]
  · rfl

/-- Noting roles, and adding the implicit constructor, changes nothing but constructors. -/
theorem filterMap_withRoles {β : Type} {f : Member → Option β}
    (hf : ∀ k, f (.constructor k) = none) :
    (c.withRoles o).members.filterMap f = c.members.filterMap f := by
  unfold withRoles
  split
  · rfl
  · rw [← filterMap_withImplicitConstructor o c hf, List.filterMap_map]
    congr 1
    funext m
    cases m with
    | constructor k => exact (hf _).trans (hf k).symm
    | _ => rfl

theorem constructor?_classified (m : Member) :
    m.classified.constructor? = m.constructor?.map Constructor.classified := by
  cases m <;> rfl

variable {c}

theorem constructors_withRoles (h : c.isInterface = false) :
    (c.withRoles o).constructors =
      (c.withImplicitConstructor o).constructors.map Constructor.classified := by
  simp only [withRoles, h, Bool.false_eq_true, ↓reduceIte, constructors]
  rw [List.filterMap_map, List.map_filterMap]
  congr 1
  funext m
  exact constructor?_classified m

theorem constructors_withImplicitConstructor (h : c.isInterface = false) :
    (c.withImplicitConstructor o).constructors =
      if c.constructors = [] then [.implicit o.defaultSelector] else c.constructors := by
  by_cases hk : c.constructors = []
  · have hf : ∀ m ∈ c.members, m.constructor? = none := List.filterMap_eq_nil_iff.mp hk
    have ht : (c.members.take c.implicitPosition).filterMap Member.constructor? = [] :=
      List.filterMap_eq_nil_iff.mpr fun m hm => hf m (List.mem_of_mem_take hm)
    have hd : (c.members.drop c.implicitPosition).filterMap Member.constructor? = [] :=
      List.filterMap_eq_nil_iff.mpr fun m hm => hf m (List.mem_of_mem_drop hm)
    simp [withImplicitConstructor, lacksConstructor, h, hk, constructors_insertAt, ht, hd,
      Member.constructor?]
  · simp [withImplicitConstructor, lacksConstructor, h, hk]

theorem implicit_or_mem_constructors (h : c.isInterface = false) {k : Constructor}
    (hk : k ∈ (c.withImplicitConstructor o).constructors) :
    k = .implicit o.defaultSelector ∨ k ∈ c.constructors := by
  rw [constructors_withImplicitConstructor o h] at hk
  split at hk
  · exact .inl (List.mem_singleton.mp hk)
  · exact .inr hk

theorem mem_constructors_withImplicitConstructor (h : c.isInterface = false) {k : Constructor}
    (hk : k ∈ c.constructors) : k ∈ (c.withImplicitConstructor o).constructors := by
  rw [constructors_withImplicitConstructor o h, if_neg (List.ne_nil_of_mem hk)]
  exact hk

theorem map_snd_placedConstructors (c : ClassDecl) :
    c.placedConstructors.map Prod.snd = c.constructors := by
  calc c.placedConstructors.map Prod.snd
      = c.members.zipIdx.filterMap (Member.constructor? ∘ Prod.fst) := by
        rw [placedConstructors, List.map_filterMap]
        congr 1
        funext ⟨m, i⟩
        simp [Function.comp_def]
    _ = (c.members.zipIdx.map Prod.fst).filterMap Member.constructor? := by
        rw [List.filterMap_map]
    _ = c.constructors := by
        rw [List.zipIdx_map_fst]
        rfl

theorem roles_eq (h : c.isInterface = false) :
    c.roles.map Prod.snd = c.constructors.map Constructor.roleByBody := by
  rw [← map_snd_placedConstructors]
  simp [roles, h]

end Roles

section Lowering

variable (o : Options) (c : ClassDecl)

theorem lowerMembers_eq_map (x : LoweringContext) (ms : List Member) :
    lowerMembers x ((ms.filterMap Member.constructor?).map Constructor.roleByBody) ms =
      ms.map (Member.lowered x) := by
  induction ms with
  | nil => simp [lowerMembers]
  | cons m ms ih =>
    cases m with
    | constructor k => exact congrArg _ ih
    | _ => rw [List.filterMap_cons_none rfl, lowerMembers, ih] <;> simp [Member.lowered]

theorem filterMap_map_lowered {β : Type} {f : Member → Option β}
    (hf : ∀ k, f (.constructor k) = none) (x : LoweringContext) (ms : List Member) :
    (ms.map (Member.lowered x)).filterMap f = ms.filterMap f := by
  rw [List.filterMap_map]
  congr 1
  funext m
  cases m with
  | constructor k => exact (hf _).trans (hf k).symm
  | _ => rfl

@[simp] theorem header_withEnclosingField : c.withEnclosingField.header = c.header := by
  unfold withEnclosingField
  split
  · rfl
  · split <;> rfl

theorem filterMap_withEnclosingField {β : Type} {f : Member → Option β}
    (hf : ∀ g : Field, g.initializer = none → f (.field g) = none) :
    c.withEnclosingField.members.filterMap f = c.members.filterMap f := by
  unfold withEnclosingField
  split
  · rfl
  · split
    · rfl
    · rw [insertAt_zero]
      exact List.filterMap_cons_none (hf _ rfl)

variable {c}

theorem lowered_eq (h : c.isInterface = false) :
    c.lowered o =
      { c with
        members := (c.members.filterMap (c.unmoved .ofInstance)).map
          (Member.lowered (c.loweringContext o)) }.withEnclosingField := by
  have hr : c.roles.map Prod.snd =
      ((c.members.filterMap (c.unmoved .ofInstance)).filterMap Member.constructor?).map
        Constructor.roleByBody := by
    rw [roles_eq h]
    exact congrArg _ (constructors_withoutPreamble c .ofInstance).symm
  simp only [lowered, withLoweredConstructors, h, Bool.false_eq_true, ↓reduceIte, hr]
  rw [withoutPreamble, lowerMembers_eq_map]

theorem lowered_of_interface (h : c.isInterface = true) : c.lowered o = c := by
  simp [lowered, withLoweredConstructors, h]

@[simp] theorem header_lowered : (c.lowered o).header = c.header := by
  cases h : c.isInterface with
  | true => rw [lowered_of_interface o h]
  | false => rw [lowered_eq o h, header_withEnclosingField]; rfl

@[simp] theorem constructors_withEnclosingField (c : ClassDecl) :
    c.withEnclosingField.constructors = c.constructors := by
  unfold withEnclosingField
  split
  · rfl
  · split
    · rfl
    · rfl

theorem constructors_lowered (h : c.isInterface = false) :
    (c.lowered o).constructors =
      c.constructors.map fun k => k.lower (c.loweringContext o) k.roleByBody := by
  rw [lowered_eq o h, constructors_withEnclosingField,
    ← constructors_withoutPreamble c .ofInstance]
  unfold constructors withoutPreamble
  rw [List.filterMap_map, List.map_filterMap]
  congr 1
  funext m
  cases m <;> rfl

end Lowering

section Setup

variable (o : Options) (c : ClassDecl)

theorem filterMap_intoSetup? {β : Type} {f : Member → Option β}
    (hf : ∀ m body, f (.method { m with body }) = f (.method m)) {type : TypeRef}
    {added : List Stmt} {ms ms' : List Member} (h : intoSetup? type added ms = some ms') :
    ms'.filterMap f = ms.filterMap f := by
  induction ms generalizing ms' with
  | nil => simp [intoSetup?] at h
  | cons d rest ih =>
    unfold intoSetup? at h
    split at h
    · split at h
      · cases Option.some.inj h
        simp only [List.filterMap_cons, hf]
      · obtain ⟨later, hl, rfl⟩ := Option.map_eq_some_iff.mp h
        simp only [List.filterMap_cons, ih hl]
    · obtain ⟨later, hl, rfl⟩ := Option.map_eq_some_iff.mp h
      simp only [List.filterMap_cons, ih hl]

@[simp] theorem header_withClassSetup : (c.withClassSetup o).header = c.header := by
  unfold withClassSetup
  dsimp only
  split
  · rfl
  · split <;> rfl

@[simp] theorem constructors_withClassSetup :
    (c.withClassSetup o).constructors = c.constructors := by
  rw [← constructors_withoutPreamble c .ofClass]
  unfold withClassSetup
  dsimp only
  split
  · exact (constructors_withoutPreamble c .ofClass).symm
  · split
    · rename_i ms' hs
      exact filterMap_intoSetup? (fun _ _ => rfl) hs
    · simp [constructors, push, Member.constructor?]

end Setup

section Adjustment

variable (o : Options) (c : ClassDecl)

theorem mapM_gives {f : Member → StateM Nat Member} {g : Member → Member}
    (h : ∀ m, Gives (f m) (g m)) (ms : List Member) : Gives (ms.mapM f) (ms.map g) := by
  induction ms with
  | nil => exact Gives.pure []
  | cons m ms ih =>
    rw [List.mapM_cons]
    exact (h m).bind (ih.map _)

theorem respelled_gives (m : Member) : Gives m.respelled (m.adjusted respeller) := by
  cases m with
  | constructor k => exact (rewriteBlock_gives k.body).map _
  | method f =>
    by_cases hf : f.kind = .classSetup
    · simp only [Member.respelled, Member.adjusted, if_pos hf]
      exact (rewriteBlock_gives f.body).map _
    · simp only [Member.respelled, Member.adjusted, if_neg hf]
      exact Gives.pure _
  | _ => exact Gives.pure _

theorem adjusted_identity (m : Member) : m.adjusted {} = m := by
  have hb : ∀ b : Block, ({} : Rewriter Id).mapBlock b = b := by
    intro b
    have h := identity_mapStmts b.statements
    cases b
    exact congrArg (Block.mk · _) h
  cases m with
  | constructor k => simp [Member.adjusted, Constructor.adjusted, hb]
  | method f => simp [Member.adjusted, Method.adjusted, hb]
  | _ => rfl

theorem withRespelling_eq :
    (c.withRespelling o).1 = { c with members := c.members.map (Member.adjusted o.adjuster) } := by
  unfold withRespelling Options.adjuster
  split
  · exact congrArg (fun ms => { c with members := ms }) (mapM_gives respelled_gives c.members 0)
  · rw [show Member.adjusted {} = id from funext adjusted_identity, List.map_id]

end Adjustment

section Normalized

variable (o : Options) (c : ClassDecl)

@[simp] theorem header_normalized : (c.normalized o).header = c.header := by
  rw [normalized, withRespelling_eq]
  change (c.initialized o).header = c.header
  simp [initialized]

theorem constructors_withRespelling :
    (c.withRespelling o).1.constructors = c.constructors.map (Constructor.adjusted o.adjuster) := by
  rw [withRespelling_eq]
  unfold constructors
  rw [List.filterMap_map, List.map_filterMap]
  congr 1
  funext m
  cases m with
  | method f =>
    by_cases hf : f.kind = .classSetup <;> simp [Member.adjusted, Member.constructor?, hf]
  | _ => rfl

end Normalized

end ClassDecl

end ExplicitInit
