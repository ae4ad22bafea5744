import ExplicitInit.Proofs.Declarations
import ExplicitInit.Proofs.DelegationChains
import ExplicitInit.Proofs.Setup

namespace ExplicitInit

namespace Constructor

variable {k : Constructor} {added more : List Stmt}

theorem boundary?_extendPreamble {n : Nat} (h : k.boundary? = some n) (added : List Stmt) :
    (k.extendPreamble added).boundary? = some (n + added.length) := by
  obtain ⟨i, body, span, rest, hs, _, hle⟩ := boundary?_eq_some h
  rw [extendPreamble_of_boundary hs h]
  simp [boundary?, guarded?, withStatements]
  omega

theorem extendPreamble_append :
    (k.extendPreamble added).extendPreamble more = k.extendPreamble (added ++ more) := by
  cases hb : k.boundary? with
  | none =>
    have hn : ∀ added, k.extendPreamble added = k := fun _ => extendPreamble_of_no_boundary hb
    rw [hn, hn, hn]
  | some n =>
    obtain ⟨i, body, span, rest, hs, _, hle⟩ := boundary?_eq_some hb
    -- The boundary of the first extension stands right behind what it added.
    have hb' := boundary?_extendPreamble hb added
    rw [extendPreamble_of_boundary hs hb] at hb' ⊢
    rw [extendPreamble_of_boundary rfl hb', extendPreamble_of_boundary hs hb]
    have ht : (body.statements.take n ++ added ++ body.statements.drop n).take (n + added.length) =
        body.statements.take n ++ added := by
      rw [List.take_left' (by simp [hle])]
    have hd : (body.statements.take n ++ added ++ body.statements.drop n).drop (n + added.length) =
        body.statements.drop n := by
      rw [List.drop_left' (by simp [hle])]
    simp only [withStatements, ht, hd]
    simp only [List.length_append, Nat.add_assoc, List.append_assoc]

theorem lower_designated_extend (x : LoweringContext) (more : List Stmt) :
    (k.lower x .designated).extendPreamble more =
      k.lower { x with hoisted := x.hoisted ++ more } .designated := by
  cases h : k.isLowered with
  | true =>
    rw [lower_designated_lowered x h, lower_designated_lowered _ h, extendPreamble_append]
  | false =>
    have hs := lower_designated_source x h
    have ht : (x.preamble ++ k.ownStatements ++ [x.options.registration]).take x.preamble.length =
        x.preamble := by
      rw [List.append_assoc, List.take_left]
    have hd : (x.preamble ++ k.ownStatements ++ [x.options.registration]).drop x.preamble.length =
        k.ownStatements ++ [x.options.registration] := by
      rw [List.append_assoc, List.drop_left]
    rw [extendPreamble_of_boundary hs (lower_designated_boundary? x h), lower_designated_eq _ h,
      lower_designated_eq _ h]
    simp only [withStatements, Block.ofList, ht, hd]
    simp only [LoweringContext.preamble, List.append_assoc, List.length_append, Nat.add_assoc]

theorem adjusted_extendPreamble (o : Options) :
    ((k.adjusted o.adjuster).extendPreamble added).adjusted o.adjuster =
      (k.extendPreamble added).adjusted o.adjuster := by
  cases hb : k.boundary? with
  | none =>
    have hb' : (k.adjusted o.adjuster).boundary? = none := (boundary?_adjusted o k).trans hb
    rw [extendPreamble_of_no_boundary hb, extendPreamble_of_no_boundary hb']
    simp [adjusted]
  | some n =>
    obtain ⟨i, body, span, rest, hs, _, _⟩ := boundary?_eq_some hb
    have hb' : (k.adjusted o.adjuster).boundary? = some n := (boundary?_adjusted o k).trans hb
    have hs' : (k.adjusted o.adjuster).body.statements =
        .allocationGuard (o.adjuster.mapInvocation i) (o.adjuster.mapBlock body) span ::
          o.adjuster.mapStmts rest := by
      rw [adjusted_statements, hs, Rewriter.mapStmts_cons, Rewriter.mapStmt_allocationGuard]
    rw [extendPreamble_of_boundary hs hb, extendPreamble_of_boundary hs' hb']
    simp [adjusted, withStatements, Rewriter.mapBlock_eq]

theorem adjusted_adjusted (o : Options) :
    (k.adjusted o.adjuster).adjusted o.adjuster = k.adjusted o.adjuster := by
  simp [adjusted]

/-- Lowering first for one part of the preamble and then for the rest comes to lowering for all of
it, whichever form the constructor had. -/
theorem lower_adjusted_lower (o : Options) (x : LoweringContext) (more : List Stmt) :
    (((k.lower x k.roleByBody).adjusted o.adjuster).lower { x with hoisted := more }
        k.roleByBody).adjusted o.adjuster =
      (k.lower { x with hoisted := x.hoisted ++ more } k.roleByBody).adjusted o.adjuster := by
  have hl : ((k.lower x k.roleByBody).adjusted o.adjuster).isLowered = true :=
    (isLowered_adjusted o _).trans (isLowered_lower x k)
  cases hr : k.roleByBody with
  | designated =>
    rw [hr] at hl
    rw [lower_designated_lowered _ hl, adjusted_extendPreamble, lower_designated_extend]
  | delegating =>
    rw [hr] at hl
    rw [lower_delegating_lowered _ hl, adjusted_adjusted]
    rfl

theorem isSome_boundary?_lower (x : LoweringContext) (hd : k.isDesignated = true) :
    (k.lower x k.roleByBody).boundary?.isSome = (!k.isLowered || k.boundary?.isSome) := by
  rw [roleByBody_of_designated hd]
  cases h : k.isLowered with
  | true =>
    rw [lower_designated_lowered x h]
    cases hb : k.boundary? with
    | none => rw [extendPreamble_of_no_boundary hb, hb]; rfl
    | some n => rw [boundary?_extendPreamble hb]; rfl
  | false => rw [lower_designated_boundary? x h]; rfl

end Constructor

def Member.isDeclaration : Member → Bool
  | .field _ | .block _ => true
  | .constructor _ | .method _ => false

namespace ClassDecl

def append (c : ClassDecl) (ms : List Member) : ClassDecl :=
  { c with members := c.members ++ ms }

variable {o : Options} {c : ClassDecl} {ms : List Member}

section Append

theorem isInterface_append : (c.append ms).isInterface = c.isInterface := rfl

theorem preamble_append (side : Side) :
    (c.append ms).preamble side = c.preamble side ++ ms.filterMap (c.moved side) :=
  List.filterMap_append

theorem instanceInitializers_append :
    (c.append ms).instanceInitializers =
      c.instanceInitializers ++ ms.filterMap c.instanceInitializer? :=
  List.filterMap_append

theorem filterMap_of_declarations {β : Type} {f : Member → Option β}
    (hms : ∀ m ∈ ms, m.isDeclaration = true)
    (hf : ∀ m : Member, m.isDeclaration = true → f m = none) :
    (c.append ms).members.filterMap f = c.members.filterMap f := by
  have hn : ms.filterMap f = [] := List.filterMap_eq_nil_iff.mpr fun m hm => hf m (hms m hm)
  rw [append, List.filterMap_append, hn, List.append_nil]

theorem constructors_append (hms : ∀ m ∈ ms, m.isDeclaration = true) :
    (c.append ms).constructors = c.constructors :=
  filterMap_of_declarations hms fun m hm => by cases m <;> first | rfl | cases hm

theorem setup?_append (hms : ∀ m ∈ ms, m.isDeclaration = true) :
    (c.append ms).setup? = c.setup? :=
  congrArg List.head? <|
    filterMap_of_declarations hms fun m hm => by cases m <;> first | rfl | cases hm

theorem constructors_withImplicitConstructor_append (h : c.isInterface = false)
    (hms : ∀ m ∈ ms, m.isDeclaration = true) :
    ((c.append ms).withImplicitConstructor o).constructors =
      (c.withImplicitConstructor o).constructors := by
  rw [constructors_withImplicitConstructor o h,
    constructors_withImplicitConstructor o (c := c.append ms) h, constructors_append hms]

theorem loweringContext_append :
    (c.append ms).loweringContext o =
      { c.loweringContext o with
        hoisted := (c.loweringContext o).hoisted ++
          c.withEnclosingReads (ms.filterMap (c.moved .ofInstance)) } := by
  have hh : (c.append ms).withEnclosingReads ((c.append ms).preamble .ofInstance) =
      c.withEnclosingReads (c.preamble .ofInstance) ++
        c.withEnclosingReads (ms.filterMap (c.moved .ofInstance)) := by
    rw [preamble_append, ← withEnclosingReads_append]
    rfl
  simp only [loweringContext, hh]
  rfl

theorem loweringContext_normalized_append (h : c.isInterface = false) :
    ((c.normalized o).append ms).loweringContext o =
      { c.loweringContext o with
        hoisted := c.withEnclosingReads (ms.filterMap (c.moved .ofInstance)) } := by
  have hp : ((c.normalized o).append ms).preamble .ofInstance =
      { c with members := ms }.preamble .ofInstance := by
    rw [preamble_append, preamble_ofInstance_normalized o h,
      moved_of_header (header_normalized o c)]
    rfl
  have hh : ((c.normalized o).append ms).header = { c with members := ms }.header :=
    header_normalized o c
  exact loweringContext_congr o hh hp

end Append

theorem classified_normalConstructor (k : Constructor) :
    (c.normalConstructor o k).classified = c.normalConstructor o k := by
  have hr := normalConstructor_role o c k
  rw [Constructor.classified, normalConstructor_roleByBody, ← hr]

/-- A constructor takes in what is added as if it had been there from the start. -/
theorem normalConstructor_append (h : c.isInterface = false) (k : Constructor) :
    ((c.normalized o).append ms).normalConstructor o (c.normalConstructor o k) =
      (c.append ms).normalConstructor o k := by
  rw [normalConstructor, classified_normalConstructor, normalConstructor_roleByBody,
    loweringContext_normalized_append h, normalConstructor.eq_def o (c.append ms),
    loweringContext_append]
  exact Constructor.lower_adjusted_lower (k := k.classified) o (c.loweringContext o) _

theorem constructors_normalized_append (h : c.isInterface = false)
    (hms : ∀ m ∈ ms, m.isDeclaration = true) :
    (((c.normalized o).append ms).normalized o).constructors =
      ((c.append ms).normalized o).constructors := by
  have h₁ : ((c.normalized o).append ms).isInterface = false := (isInterface_normalized o).trans h
  have hne : ((c.normalized o).append ms).constructors ≠ [] := by
    rw [constructors_append hms, constructors_normalized o h, Ne, List.map_eq_nil_iff]
    exact constructors_withImplicitConstructor_ne_nil h
  rw [constructors_normalized o h₁, constructors_withImplicitConstructor o h₁, if_neg hne,
    constructors_append hms, constructors_normalized o h, List.map_map,
    constructors_normalized o (c := c.append ms) h,
    constructors_withImplicitConstructor_append h hms]
  exact congrArg (List.map · _) (funext fun k => normalConstructor_append h k)

theorem setup?_normalized_append (hms : ∀ m ∈ ms, m.isDeclaration = true) :
    (((c.normalized o).append ms).normalized o).setup? =
      ((c.append ms).normalized o).setup? := by
  rw [setup?_normalized, setup?_normalized, setup?_append hms, setup?_append hms,
    setup?_normalized, preamble_append, preamble_append, preamble_ofClass_normalized,
    moved_of_header (header_normalized o c), List.nil_append, adjusted_setupWith]
  have h₁ : ((c.normalized o).append ms).header = c.header := header_normalized o c
  rw [setupWith_of_header h₁, setupWith_of_header (d := c.append ms) (c := c) rfl,
    setupWith_append]

section Acceptance

/-- Each designated constructor of an earlier run says where the preamble of that run ends. -/
def KnowsBoundaries (c : ClassDecl) : Prop :=
  ∀ k ∈ c.constructors, k.isLowered = true → k.isDesignated = true → k.boundary?.isSome = true

theorem boundaryFault?_eq_none_iff_knows (h : c.isInterface = false) :
    c.boundaryFault? = none ↔ (c.instanceInitializers ≠ [] → c.KnowsBoundaries) := by
  rw [boundaryFault?_eq_none_iff, Ne, ← hasPendingInitializer_eq_false_iff h, Bool.not_eq_false]
  exact Iff.rfl

theorem knowsBoundaries_normalized (h : c.isInterface = false) :
    (c.normalized o).KnowsBoundaries ↔ c.KnowsBoundaries := by
  have hb : ∀ k : Constructor, k.isDesignated = true →
      (c.normalConstructor o k).boundary?.isSome = (!k.isLowered || k.boundary?.isSome) := by
    intro k hd
    have hk : k.classified.isDesignated = true := hd
    rw [normalConstructor, Constructor.boundary?_adjusted]
    exact Constructor.isSome_boundary?_lower (c.loweringContext o) hk
  unfold KnowsBoundaries
  rw [constructors_normalized o h, List.forall_mem_map]
  constructor
  · intro hk k hm hl hd
    have hs := hk k (mem_constructors_withImplicitConstructor o h hm) (by simp)
      (by simpa using hd)
    simpa [hb k hd, hl] using hs
  · intro hk k hm _ hd
    have hd' : k.isDesignated = true := by simpa using hd
    rw [hb k hd', Bool.or_eq_true_iff, Bool.not_eq_true']
    cases hl : k.isLowered with
    | false => exact .inl rfl
    | true =>
      rcases implicit_or_mem_constructors o h hm with rfl | hm
      · cases hl
      · exact .inr (hk k hm hl hd')

theorem delegationFault?_append (hms : ∀ m ∈ ms, m.isDeclaration = true) :
    (c.append ms).delegationFault? = c.delegationFault? := by
  refine delegationFault?_map (f := id) (fun _ => rfl) (fun _ => rfl) rfl ?_
  rw [constructors_append hms, List.map_id]

theorem scopeFault?_append :
    (c.append ms).scopeFault? = none ↔
      c.scopeFault? = none ∧ ∀ m ∈ ms, c.checkScope m = .ok () := by
  rw [scopeFault?_eq_none_iff, scopeFault?_eq_none_iff, ← List.forall_mem_append]
  exact Iff.rfl

theorem fault?_append_iff (h : c.isInterface = false) (hms : ∀ m ∈ ms, m.isDeclaration = true) :
    (c.append ms).fault? = none ↔
      c.delegationFault? = none ∧
        (c.instanceInitializers ≠ [] ∨ ms.filterMap c.instanceInitializer? ≠ [] →
          c.KnowsBoundaries) ∧
        c.scopeFault? = none ∧ ∀ m ∈ ms, c.checkScope m = .ok () := by
  have hi : (c.append ms).interfaceFault? = none :=
    interfaceFault?_eq_none_iff.mpr fun hi => by rw [isInterface_append, h] at hi; cases hi
  have hk : (c.append ms).KnowsBoundaries ↔ c.KnowsBoundaries := by
    unfold KnowsBoundaries
    rw [constructors_append hms]
  have hn : (c.append ms).instanceInitializers ≠ [] ↔
      c.instanceInitializers ≠ [] ∨ ms.filterMap c.instanceInitializer? ≠ [] := by
    rw [instanceInitializers_append, Ne, List.append_eq_nil_iff, not_and_or]
  rw [fault?_eq_none_iff, boundaryFault?_eq_none_iff_knows (c := c.append ms) h, hk, hn,
    delegationFault?_append hms, scopeFault?_append]
  exact and_iff_right hi

theorem fault?_append_eq_none_iff (h : c.isInterface = false)
    (hms : ∀ m ∈ ms, m.isDeclaration = true) :
    (c.append ms).fault? = none ↔
      c.fault? = none ∧ ((c.normalized o).append ms).fault? = none := by
  have h₁ : (c.normalized o).isInterface = false := (isInterface_normalized o).trans h
  have hp : (c.normalized o).instanceInitializers = [] := by
    rw [← preamble_ofInstance h₁]
    exact preamble_ofInstance_normalized o h
  have hm : (c.normalized o).instanceInitializer? = c.instanceInitializer? :=
    eq_of_header instanceInitializer? (fun _ => rfl) (header_normalized o c)
  have hnil : c.append [] = c := by simp [append]
  have hc : (c.append []).fault? = none ↔ _ := fault?_append_iff h (by simp)
  rw [hnil] at hc
  rw [fault?_append_iff h hms, fault?_append_iff h₁ hms, hc, hp, hm,
    checkScope_of_header (header_normalized o c), knowsBoundaries_normalized h,
    delegationFault?_normalized o h]
  have hs := scopeFault?_normalized (c := c) o
  simp only [List.filterMap_nil, ne_eq, not_true_eq_false, or_false, false_or, List.not_mem_nil,
    false_implies, implies_true, and_true]
  constructor
  · rintro ⟨hd, hb, hscope, hadded⟩
    exact ⟨⟨hd, fun hp => hb (.inl hp), hscope⟩, hd, fun hp => hb (.inr hp), hs hscope, hadded⟩
  · rintro ⟨⟨hd, hb, hscope⟩, _, hb', _, hadded⟩
    exact ⟨hd, fun hp => hp.elim hb hb', hscope, hadded⟩

end Acceptance

/-- Adding fields and blocks to a normalized class and normalizing again comes to the same
constructors and the same setup method as normalizing everything at once. -/
theorem normalize_append (hc : c.kind = .ordinary) (hms : ∀ m ∈ ms, m.isDeclaration = true) :
    ((∃ r, (c.append ms).normalize o = .ok r) ↔
      ∃ c₁ s₁ r, c.normalize o = .ok (c₁, s₁) ∧ (c₁.append ms).normalize o = .ok r) ∧
    ∀ {c₁ c₂ c' s₁ s₂ s'}, c.normalize o = .ok (c₁, s₁) →
      (c₁.append ms).normalize o = .ok (c₂, s₂) → (c.append ms).normalize o = .ok (c', s') →
      c₂.constructors = c'.constructors ∧ c₂.setup? = c'.setup? := by
  have h : c.isInterface = false := isInterface_eq_false_iff.mpr hc
  refine ⟨⟨?_, ?_⟩, ?_⟩
  · rintro ⟨⟨c', s'⟩, hr⟩
    obtain ⟨hf, _⟩ := normalize_eq_ok_iff.mp hr
    obtain ⟨hf₁, hf₂⟩ := (fault?_append_eq_none_iff (o := o) h hms).mp hf
    exact ⟨_, _, (_, _), normalize_eq_ok_iff.mpr ⟨hf₁, rfl, rfl⟩,
      normalize_eq_ok_iff.mpr ⟨hf₂, rfl, rfl⟩⟩
  · rintro ⟨c₁, s₁, ⟨c₂, s₂⟩, hr₁, hr₂⟩
    obtain ⟨hf₁, rfl, _⟩ := normalize_eq_ok_iff.mp hr₁
    obtain ⟨hf₂, _⟩ := normalize_eq_ok_iff.mp hr₂
    have hf := (fault?_append_eq_none_iff h hms).mpr ⟨hf₁, hf₂⟩
    exact ⟨(_, _), normalize_eq_ok_iff.mpr ⟨hf, rfl, rfl⟩⟩
  · intro c₁ c₂ c' s₁ s₂ s' hr₁ hr₂ hr
    obtain ⟨_, rfl, _⟩ := normalize_eq_ok_iff.mp hr₁
    obtain ⟨_, rfl, _⟩ := normalize_eq_ok_iff.mp hr₂
    obtain ⟨_, rfl, _⟩ := normalize_eq_ok_iff.mp hr
    exact ⟨constructors_normalized_append h hms, setup?_normalized_append hms⟩

def growing : ClassDecl where
  type := ⟨⟨1⟩, "Table"⟩
  kind := .ordinary
  superclass := none
  enclosing := []
  members := [
    .field { Field.ofName "size" "int" with initializer := some (.int 8 .synthetic) },
    .method (.classSetup "initialize" [] [.ofExpr (.ofText "started")]),
    .constructor (.ofBody "init" [] []),
    .constructor (.ofBody "initWithSize:" [] [.toSibling "init" [], .ofExpr (.localVar "size")])]
  span := .synthetic

def additions : List Member :=
  [.field { Field.ofName "name" "String" with initializer := some (.string [0xD800] .synthetic) },
    .block (.ofClass [.ofExpr (.ofText "grown")]),
    .block (.ofInstance [.ofExpr (.ofText "made")])]

theorem normalize_append_growing :
    growing.kind = .ordinary ∧ (∀ m ∈ additions, m.isDeclaration = true) ∧
      ∃ c₁ s₁ c₂ s₂ c' s', growing.normalize .standard = .ok (c₁, s₁) ∧
        (c₁.append additions).normalize .standard = .ok (c₂, s₂) ∧
        (growing.append additions).normalize .standard = .ok (c', s') ∧
        c₂.constructors = c'.constructors ∧ c₂.setup? = c'.setup? := by
  have hms : ∀ m ∈ additions, m.isDeclaration = true := by
    simp [additions, Member.isDeclaration]
  have h : (growing.append additions).normalize .standard = .ok
      ((growing.append additions).normalized .standard,
        (growing.append additions).changes .standard) :=
    normalize_eq_ok_iff.mpr ⟨by decide +kernel, rfl, rfl⟩
  obtain ⟨hsucceeds, hsame⟩ := normalize_append (o := .standard) (c := growing) rfl hms
  obtain ⟨c₁, s₁, ⟨c₂, s₂⟩, h₁, h₂⟩ := hsucceeds.mp ⟨_, h⟩
  exact ⟨rfl, hms, c₁, s₁, c₂, s₂, _, _, h₁, h₂, h, hsame h₁ h₂ h⟩

end ClassDecl

end ExplicitInit
