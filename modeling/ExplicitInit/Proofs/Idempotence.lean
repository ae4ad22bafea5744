import ExplicitInit.Proofs.Declarations
import ExplicitInit.Proofs.DelegationChains

namespace ExplicitInit

def Member.running? : Member → Option Block
  | .constructor k => some k.body
  | .method m => if m.kind = .classSetup then some m.body else none
  | .field _ | .block _ => none

theorem Member.running?_adjusted (m : Member) :
    (m.adjusted respeller).running? = m.running?.map respeller.mapBlock := by
  cases m with
  | method f =>
    by_cases hf : f.kind = .classSetup <;>
      simp [Member.adjusted, Member.running?, Method.adjusted, hf]
  | _ => rfl

namespace ClassDecl

/-- Nothing is left to move, to lower or to declare. -/
structure IsNormal (c : ClassDecl) : Prop where
  faultless : c.fault? = none
  complete : c.isInterface = false → c.constructors ≠ []
  lowered : ∀ k ∈ c.constructors, k.isLowered = true ∧ k.role = some k.roleByBody
  ofInstance : c.isInterface = false → c.preamble .ofInstance = []
  ofClass : c.preamble .ofClass = []
  enclosing : c.isInterface = false → ∀ link rest, c.enclosing = link :: rest →
    (c.field? link.field).isSome = true

def IsSettled (c : ClassDecl) : Prop :=
  ∀ m ∈ c.members, ∀ b, m.running? = some b → ∀ x ∈ b.nodes, x.isSettled = true

variable {o : Options} {c : ClassDecl}

section Fixed

theorem mem_constructors {k : Constructor} (h : .constructor k ∈ c.members) : k ∈ c.constructors :=
  List.mem_filterMap.mpr ⟨_, h, rfl⟩

theorem lacksConstructor_of_normal (h : c.IsNormal) : c.lacksConstructor = false := by
  cases hc : c.isInterface with
  | true => simp [lacksConstructor, hc]
  | false => simp [lacksConstructor, h.complete hc]

theorem map_classified_of_noted (h : ∀ k ∈ c.constructors, k.role = some k.roleByBody) :
    c.members.map Member.classified = c.members := by
  have hm : ∀ m ∈ c.members, m.classified = m := by
    intro m hm
    cases m with
    | constructor k =>
      obtain ⟨selector, params, body, role, preambleLength, isSynthetic, span⟩ := k
      have hr := h _ (mem_constructors hm)
      exact congrArg (fun r => Member.constructor ⟨selector, params, body, r, _, _, _⟩) hr.symm
    | _ => rfl
  rw [List.map_congr_left hm]
  exact List.map_id _

theorem withRoles_of_normal (h : c.IsNormal) : c.withRoles o = c := by
  unfold withRoles withImplicitConstructor
  rw [lacksConstructor_of_normal h]
  split
  · rfl
  · simp [map_classified_of_noted fun k hk => (h.lowered k hk).2]

theorem loweringContext_hoisted_of_preamble (h : c.preamble .ofInstance = []) :
    (c.loweringContext o).hoisted = [] := by
  change c.withEnclosingReads (c.preamble .ofInstance) = []
  rw [h]
  rfl

theorem lower_of_lowered {x : LoweringContext} (hx : x.hoisted = []) {k : Constructor}
    (h : k.isLowered = true) (role : Role) : k.lower x role = k := by
  cases role with
  | designated => rw [Constructor.lower_designated_lowered x h, hx, Constructor.extendPreamble_nil]
  | delegating => exact Constructor.lower_delegating_lowered x h

theorem lowered_of_lowered (hc : c.isInterface = false)
    (hl : ∀ k ∈ c.constructors, k.isLowered = true) (hp : c.preamble .ofInstance = []) :
    c.lowered o = c.withEnclosingField := by
  have hm : ∀ m ∈ c.members, m.lowered (c.loweringContext o) = m := by
    intro m hm
    cases m with
    | constructor k =>
      have hx := loweringContext_hoisted_of_preamble (o := o) hp
      exact congrArg _ (lower_of_lowered hx (hl k (mem_constructors hm)) _)
    | _ => rfl
  have hs : c.members.map (Member.lowered (c.loweringContext o)) = c.members := by
    rw [List.map_congr_left hm]
    exact List.map_id _
  have hbare : c.members.filterMap (c.unmoved .ofInstance) = c.members :=
    congrArg members (withoutPreamble_of_preamble hp)
  rw [lowered_eq o hc, hbare, hs]

theorem lowered_of_normal (h : c.IsNormal) : c.lowered o = c := by
  cases hc : c.isInterface with
  | true => exact lowered_of_interface o hc
  | false =>
    rw [lowered_of_lowered hc (fun k hk => (h.lowered k hk).1) (h.ofInstance hc)]
    exact withEnclosingField_of_declared (h.enclosing hc)

theorem withClassSetup_of_preamble (h : c.preamble .ofClass = []) : c.withClassSetup o = c := by
  simp [withClassSetup, h]

theorem initialized_of_normal (h : c.IsNormal) : c.initialized o = c := by
  rw [initialized, withRoles_of_normal h, lowered_of_normal h, withClassSetup_of_preamble h.ofClass]

theorem mapM_eq_pure {f : Member → StateM Nat Member} {ms : List Member}
    (h : ∀ m ∈ ms, f m = pure m) : ms.mapM f = pure ms := by
  induction ms with
  | nil => rfl
  | cons m ms ih =>
    rw [List.mapM_cons, h m List.mem_cons_self, ih fun m' hm => h m' (List.mem_cons_of_mem m hm)]
    rfl

theorem respelled_of_settled (h : c.IsSettled) : c.respelled = (c, 0) := by
  have hm : ∀ m ∈ c.members, m.respelled = pure m := by
    intro m hm
    cases m with
    | constructor k =>
      have hk := rewriteBlock_of_settled (h _ hm k.body rfl)
      simp only [Member.respelled, hk]
      rfl
    | method f =>
      by_cases hf : f.kind = .classSetup
      · have hb := rewriteBlock_of_settled (h _ hm f.body (by simp [Member.running?, hf]))
        simp only [Member.respelled, if_pos hf, hb]
        rfl
      · simp only [Member.respelled, if_neg hf]
    | _ => rfl
  simp only [respelled, mapM_eq_pure hm]
  rfl

theorem withRespelling_of_settled (h : o.respellLiterals = true → c.IsSettled) :
    c.withRespelling o = (c, 0) := by
  unfold withRespelling
  split
  · rename_i ho
    exact respelled_of_settled (h ho)
  · rfl

theorem loweringSummary_of_lowered (hl : ∀ k ∈ c.constructors, k.isLowered = true)
    (hp : c.isInterface = false → c.preamble .ofInstance = []) (roles : List Role) :
    c.loweringSummary o roles = .zero := by
  unfold loweringSummary
  split
  · rfl
  · rename_i hc
    have hn : c.loweringCount roles = 0 := by
      rw [loweringCount, List.countP_eq_zero]
      intro ⟨k, role⟩ hk
      simp [hl k (List.of_mem_zip hk).1]
    have he : c.extendsLowered roles = false := by
      simp [extendsLowered, hp (by simpa using hc)]
    simp [hn, instanceMoved, he, Summary.zero]

/-- On a class where nothing is left to do, every run does nothing. -/
theorem normalize_of_normal (h : c.IsNormal) (hs : o.respellLiterals = true → c.IsSettled) :
    c.normalize o = .ok (c, .zero) := by
  refine normalize_eq_ok_iff.mpr ⟨h.faultless, ?_, ?_⟩
  · rw [normalized, initialized_of_normal h, withRespelling_of_settled hs]
  · simp only [changes]
    rw [initialized_of_normal h, withRespelling_of_settled hs, withRoles_of_normal h,
      lowered_of_normal h, h.ofClass, lacksConstructor_of_normal h,
      loweringSummary_of_lowered (fun k hk => (h.lowered k hk).1) h.ofInstance]
    rfl

end Fixed

section Reached

theorem constructors_normalized_of_interface (h : c.isInterface = true) :
    (c.normalized o).constructors = c.constructors.map (Constructor.adjusted o.adjuster) := by
  rw [normalized, constructors_withRespelling, initialized, constructors_withClassSetup,
    withRoles_of_interface o c h, lowered_of_interface o h]

theorem boundaryFault?_of_preamble
    (h : c.isInterface = false → c.preamble .ofInstance = []) : c.boundaryFault? = none := by
  rw [boundaryFault?_eq_none_iff]
  intro hp
  cases hc : c.isInterface with
  | true => simp [hasPendingInitializer, hc] at hp
  | false =>
    rw [(hasPendingInitializer_eq_false_iff hc).mpr (preamble_ofInstance hc ▸ h hc)] at hp
    cases hp

theorem fault?_normalized (h : c.fault? = none) : (c.normalized o).fault? = none := by
  obtain ⟨hi, hd, _, hs⟩ := fault?_eq_none_iff.mp h
  have hn : ∀ hc : c.isInterface = true, (c.normalized o).constructors = [] := by
    intro hc
    rw [constructors_normalized_of_interface hc, interfaceFault?_eq_none_iff.mp hi hc]
    rfl
  refine fault?_eq_none_iff.mpr ⟨?_, ?_, ?_, scopeFault?_normalized o hs⟩
  · rw [interfaceFault?_eq_none_iff, isInterface_normalized]
    exact hn
  · cases hc : c.isInterface with
    | true => exact delegationFault?_of_constructors_eq_nil (hn hc)
    | false => exact (delegationFault?_normalized o hc).trans hd
  · apply boundaryFault?_of_preamble
    rw [isInterface_normalized]
    exact preamble_ofInstance_normalized o

theorem isNormal_normalized (h : c.fault? = none) : (c.normalized o).IsNormal := by
  have hk : c.isInterface = false → (c.normalized o).constructors =
      (c.withImplicitConstructor o).constructors.map (c.normalConstructor o) :=
    constructors_normalized o
  refine ⟨fault?_normalized h, ?_, ?_, ?_, preamble_ofClass_normalized o, ?_⟩
  · intro hc
    rw [isInterface_normalized] at hc
    rw [hk hc, Ne, List.map_eq_nil_iff]
    exact constructors_withImplicitConstructor_ne_nil hc
  · intro k hm
    cases hc : c.isInterface with
    | true =>
      rw [constructors_normalized_of_interface hc,
        interfaceFault?_eq_none_iff.mp (fault?_eq_none_iff.mp h).1 hc] at hm
      cases hm
    | false =>
      rw [hk hc] at hm
      obtain ⟨k₀, _, rfl⟩ := List.mem_map.mp hm
      exact ⟨normalConstructor_isLowered o c k₀, by simp⟩
  · rw [isInterface_normalized]
    exact preamble_ofInstance_normalized o
  · rw [isInterface_normalized, enclosing_normalized]
    intro hc link rest he
    exact isSome_field?_normalized o hc he

theorem members_respelled (c : ClassDecl) :
    c.respelled.1.members = c.members.map (Member.adjusted respeller) :=
  congrArg members (withRespelling_eq (o := .standard) (c := c))

theorem isSettled_respelled (c : ClassDecl) : c.respelled.1.IsSettled := by
  intro m hm b hb
  rw [members_respelled] at hm
  obtain ⟨m₀, _, rfl⟩ := List.mem_map.mp hm
  rw [Member.running?_adjusted] at hb
  obtain ⟨b₀, _, rfl⟩ := Option.map_eq_some_iff.mp hb
  exact settled_mapBlock b₀

theorem isSettled_normalized (ho : o.respellLiterals = true) : (c.normalized o).IsSettled := by
  rw [normalized, withRespelling, if_pos ho]
  exact isSettled_respelled _

end Reached

/-- A second run changes nothing and counts nothing, whatever names it would write, unless it is the
first to respell literals. -/
theorem normalize_idempotent {o₁ o₂ : Options} {c' : ClassDecl} {s : Summary}
    (ho : o₁.respellLiterals = true ∨ o₂.respellLiterals = false)
    (h : c.normalize o₁ = .ok (c', s)) : c'.normalize o₂ = .ok (c', .zero) := by
  obtain ⟨hf, rfl, _⟩ := normalize_eq_ok_iff.mp h
  refine normalize_of_normal (isNormal_normalized hf) fun h₂ => ?_
  rcases ho with h₁ | h₁
  · exact isSettled_normalized h₁
  · rw [h₁] at h₂
    cases h₂

def unreadLabel : ClassDecl where
  type := ⟨⟨1⟩, "Label"⟩
  kind := .ordinary
  superclass := none
  enclosing := [.to ⟨⟨2⟩, "Page"⟩]
  members := [
    .field { Field.ofName "text" "String" with
      initializer := some (.concat (.string [0xD800] .synthetic) (.ofText "!")) },
    .field { Field.ofName "count" "int" with
      isStatic := true, initializer := some (.int 0 .synthetic) },
    .block (.ofClass [.ofExpr (.string [0xD800] .synthetic)]),
    .constructor (.ofBody "initWithText:" [] [.toSibling "init" []]),
    .constructor (.ofBody "init" [] [.ofExpr (.localVar "text")])]
  span := .synthetic

theorem normalize_idempotent_unreadLabel :
    ∃ c' s, unreadLabel.normalize .standard = .ok (c', s) ∧
      c'.normalize ⟨"register", "setUp", "make", true⟩ = .ok (c', .zero) := by
  have h : unreadLabel.normalize .standard =
      .ok (unreadLabel.normalized .standard, unreadLabel.changes .standard) :=
    normalize_eq_ok_iff.mpr ⟨by decide +kernel, rfl, rfl⟩
  exact ⟨_, _, h, normalize_idempotent (.inl rfl) h⟩

end ClassDecl

end ExplicitInit
