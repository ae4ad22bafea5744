import ExplicitInit.Proofs.NamedInstances

namespace ExplicitInit

namespace ClassDecl

/-- How many statements each constructor has in its preamble beyond those it had there before. -/
def preambleGains (c c' : ClassDecl) : List Nat :=
  c'.constructors.zipIdx.map fun (k', i) =>
    (Constructor.addedPreamble c.constructors[i]? k').length

def largestGain (c c' : ClassDecl) : Nat :=
  (c.preambleGains c').max?.getD 0

/-- How many constructors a run leaves lowered that were not so before. -/
def newlyLowered (c c' : ClassDecl) : Nat :=
  c'.constructors.zipIdx.countP fun (k', i) =>
    k'.isLowered && !(c.constructors[i]?).any Constructor.isLowered

theorem mem_preambleGains {c c' : ClassDecl} {n : Nat} :
    n ∈ c.preambleGains c' ↔
      ∃ (i : Nat) (k' : Constructor), c'.constructors[i]? = some k' ∧
        (k'.addedPreamble c.constructors[i]?).length = n := by
  rw [preambleGains, List.mem_map]
  constructor
  · rintro ⟨⟨k', i⟩, hk, hn⟩
    exact ⟨i, k', List.mk_mem_zipIdx_iff_getElem?.mp hk, hn⟩
  · rintro ⟨i, k', hk, hn⟩
    exact ⟨(k', i), List.mk_mem_zipIdx_iff_getElem?.mpr hk, hn⟩

theorem largestGain_eq {c c' : ClassDecl} {n : Nat} (hmem : n ∈ c.preambleGains c')
    (hle : ∀ m ∈ c.preambleGains c', m ≤ n) : c.largestGain c' = n := by
  have hmax : (c.preambleGains c').max? = some n := List.max?_eq_some_iff.mpr ⟨hmem, hle⟩
  rw [largestGain, hmax, Option.getD_some]

section Complete

variable {o : Options} {c : ClassDecl} {k : Constructor} {i : Nat}

theorem any_isLowered_of_complete (h : c.isInterface = false)
    (hk : (c.withImplicitConstructor o).constructors[i]? = some k) :
    (c.constructors[i]?).any Constructor.isLowered = k.isLowered := by
  rcases getElem?_constructors_of_complete h hk with ⟨hi, rfl⟩ | hi
  · rw [hi]
    rfl
  · rw [hi, Option.any_some]

theorem newlyLowered_normalized (h : c.isInterface = false) :
    c.newlyLowered (c.normalized o) =
      (c.withImplicitConstructor o).constructors.countP fun k => !k.isLowered := by
  have hsame : ∀ p ∈ (c.withImplicitConstructor o).constructors.zipIdx,
      !(c.constructors[p.2]?).any Constructor.isLowered ↔ !p.1.isLowered := by
    intro ⟨k, i⟩ hp
    rw [any_isLowered_of_complete h (List.mk_mem_zipIdx_iff_getElem?.mp hp)]
  rw [newlyLowered, constructors_normalized o h, List.zipIdx_map, List.countP_map]
  simp only [Function.comp_def, Prod.map_fst, Prod.map_snd, id_eq, normalConstructor_isLowered,
    Bool.true_and]
  rw [List.countP_congr hsame]
  conv_rhs => rw [← List.zipIdx_map_fst 0 (c.withImplicitConstructor o).constructors]
  rw [List.countP_map]
  rfl

def gain (c : ClassDecl) (k : Constructor) : Nat :=
  (if k.isLowered then 0 else c.enclosingAssignment.length) + c.hoisted.length

theorem length_addedPreamble (hi : c.isInterface = false) (hb : c.boundaryFault? = none)
    (hk : (c.withImplicitConstructor o).constructors[i]? = some k) :
    ((c.normalConstructor o k).addedPreamble c.constructors[i]?).length =
      if k.isDesignated then c.gain k else 0 := by
  have hh := normalConstructor_hoistsInto (o := o) hi hb (List.mem_of_getElem? hk)
  split
  · rename_i hd
    rw [addedPreamble_normalConstructor hh hd (preamble?_of_complete hi hk),
      Rewriter.length_mapStmts, List.length_append, gain]
    split <;> rfl
  · rename_i hd
    rw [Constructor.addedPreamble, normalConstructor_isDesignated, if_neg hd, List.length_nil]

theorem mem_preambleGains_normalized (hi : c.isInterface = false) (hb : c.boundaryFault? = none)
    {n : Nat} :
    n ∈ c.preambleGains (c.normalized o) ↔
      ∃ k ∈ (c.withImplicitConstructor o).constructors,
        (if k.isDesignated then c.gain k else 0) = n := by
  rw [mem_preambleGains, constructors_normalized o hi]
  constructor
  · rintro ⟨i, k', hk, rfl⟩
    rw [List.getElem?_map] at hk
    obtain ⟨k, hki, rfl⟩ := Option.map_eq_some_iff.mp hk
    exact ⟨k, List.mem_of_getElem? hki, (length_addedPreamble hi hb hki).symm⟩
  · rintro ⟨k, hk, rfl⟩
    obtain ⟨i, hki⟩ := List.mem_iff_getElem?.mp hk
    refine ⟨i, c.normalConstructor o k, ?_, length_addedPreamble hi hb hki⟩
    rw [List.getElem?_map, hki, Option.map_some]

theorem gain_le (c : ClassDecl) (k : Constructor) :
    c.gain k ≤ c.enclosingAssignment.length + c.hoisted.length := by
  unfold gain
  split <;> omega

section Reported

variable (hi : c.isInterface = false)

include hi

theorem zip_roles :
    c.constructors.zip (c.roles.map Prod.snd) = c.constructors.map fun k => (k, k.roleByBody) := by
  calc c.constructors.zip (c.roles.map Prod.snd)
      = (c.constructors.map id).zip (c.constructors.map Constructor.roleByBody) := by
        rw [roles_eq hi, List.map_id]
    _ = c.constructors.map fun k => (k, k.roleByBody) := List.zip_map'

theorem loweringCount_roles :
    c.loweringCount (c.roles.map Prod.snd) = c.constructors.countP fun k => !k.isLowered := by
  rw [loweringCount, zip_roles hi, List.countP_map]
  rfl

theorem loweringSummary_changes (o : Options) :
    (c.changes o).constructorsLowered =
        (c.withRoles o).loweringCount ((c.withRoles o).roles.map Prod.snd) ∧
      (c.changes o).instanceMoved =
        (c.withRoles o).instanceMoved o ((c.withRoles o).roles.map Prod.snd) := by
  have hr : (c.withRoles o).isInterface = false := (isInterface_withRoles o c).trans hi
  simp [changes, loweringSummary, hr]

theorem constructorsLowered_changes (o : Options) :
    (c.changes o).constructorsLowered =
      (c.withImplicitConstructor o).constructors.countP fun k => !k.isLowered := by
  have hr : (c.withRoles o).isInterface = false := (isInterface_withRoles o c).trans hi
  rw [(loweringSummary_changes hi o).1, loweringCount_roles hr, constructors_withRoles o hi,
    List.countP_map]
  rfl

theorem extendsLowered_roles :
    c.extendsLowered (c.roles.map Prod.snd) = true ↔
      c.preamble .ofInstance ≠ [] ∧
        ∃ k ∈ c.constructors, k.isLowered = true ∧ k.isDesignated = true := by
  have hrole (k : Constructor) : (k.roleByBody == .designated) = k.isDesignated := by
    unfold Constructor.roleByBody
    cases k.isDesignated <;> rfl
  rw [extendsLowered, zip_roles hi, List.any_map, Bool.and_eq_true, List.any_eq_true]
  simp [hrole]

/-- If a constructor is in source form, all that such a one would get is counted. -/
theorem instanceMoved_of_source {k : Constructor}
    (hk : k ∈ (c.withImplicitConstructor o).constructors) (hl : k.isLowered = false) :
    (c.changes o).instanceMoved = c.enclosingAssignment.length + c.hoisted.length := by
  have hpos : 0 < (c.changes o).constructorsLowered := by
    rw [constructorsLowered_changes hi o, List.countP_pos_iff]
    exact ⟨k, hk, by simp [hl]⟩
  rw [(loweringSummary_changes hi o).1] at hpos
  rw [(loweringSummary_changes hi o).2, instanceMoved, if_pos hpos, loweringContext_withRoles,
    loweringContext_preamble hi, List.length_append]

theorem instanceMoved_of_lowered
    (hl : ∀ k ∈ (c.withImplicitConstructor o).constructors, k.isLowered = true)
    {d : Constructor} (hd : d ∈ (c.withImplicitConstructor o).constructors)
    (hdes : d.isDesignated = true) :
    (c.changes o).instanceMoved = c.hoisted.length := by
  have hr : (c.withRoles o).isInterface = false := (isInterface_withRoles o c).trans hi
  have hzero : (c.changes o).constructorsLowered = 0 := by
    rw [constructorsLowered_changes hi o, List.countP_eq_zero]
    intro k hk
    simp [hl k hk]
  rw [(loweringSummary_changes hi o).1] at hzero
  rw [(loweringSummary_changes hi o).2, instanceMoved, if_neg (by omega), loweringContext_withRoles,
    loweringContext_hoisted hi]
  split
  · rfl
  · rename_i he
    have hp : c.preamble .ofInstance = [] := by
      by_contra hp
      refine he ((extendsLowered_roles hr).mpr ⟨?_, d.classified, ?_, hl d hd, hdes⟩)
      · rwa [preamble_withRoles]
      · rw [constructors_withRoles o hi]
        exact List.mem_map_of_mem hd
    rw [← withEnclosingReads_preamble hi, hp]
    rfl

end Reported

variable (hi : c.isInterface = false) (hf : c.fault? = none)

include hi hf

theorem exists_designated_of_fault? (o : Options) :
    ∃ d ∈ (c.withImplicitConstructor o).constructors, d.isDesignated = true := by
  obtain ⟨k, hk⟩ := List.exists_mem_of_ne_nil _ (constructors_withImplicitConstructor_ne_nil hi)
  exact (reachesDesignated_of_fault? o hi (fault?_eq_none_iff.mp hf).2.1 hk).exists_designated hk

theorem largestGain_of_source {d : Constructor}
    (hd : d ∈ (c.withImplicitConstructor o).constructors) (hdes : d.isDesignated = true)
    (hl : d.isLowered = false) :
    c.largestGain (c.normalized o) = c.enclosingAssignment.length + c.hoisted.length := by
  have hb : c.boundaryFault? = none := (fault?_eq_none_iff.mp hf).2.2.1
  refine largestGain_eq ((mem_preambleGains_normalized hi hb).mpr ⟨d, hd, ?_⟩) ?_
  · simp [gain, hdes, hl]
  · intro m hm
    obtain ⟨k, _, rfl⟩ := (mem_preambleGains_normalized hi hb).mp hm
    split
    · exact gain_le c k
    · exact Nat.zero_le _

/-- What is lowered already gets the initializers that are new, and no second assignment of the
enclosing instance. -/
theorem largestGain_of_lowered
    (hl : ∀ d ∈ (c.withImplicitConstructor o).constructors, d.isDesignated = true →
      d.isLowered = true) :
    c.largestGain (c.normalized o) = c.hoisted.length := by
  have hb : c.boundaryFault? = none := (fault?_eq_none_iff.mp hf).2.2.1
  have hgain : ∀ d ∈ (c.withImplicitConstructor o).constructors, d.isDesignated = true →
      c.gain d = c.hoisted.length := by
    intro d hd hdes
    rw [gain, if_pos (hl d hd hdes), Nat.zero_add]
  obtain ⟨d, hd, hdes⟩ := exists_designated_of_fault? hi hf o
  refine largestGain_eq ((mem_preambleGains_normalized hi hb).mpr ⟨d, hd, ?_⟩) ?_
  · rw [if_pos hdes, hgain d hd hdes]
  · intro m hm
    obtain ⟨k, hk, rfl⟩ := (mem_preambleGains_normalized hi hb).mp hm
    split
    · rename_i hkdes
      exact Nat.le_of_eq (hgain k hk hkdes)
    · exact Nat.zero_le _

omit hi hf in
theorem length_enclosingAssignment (c : ClassDecl) :
    c.enclosingAssignment.length = if c.isInner then 1 else 0 := by
  unfold enclosingAssignment isInner
  cases c.enclosing <;> rfl

theorem instanceMoved_eq_hoisted_iff
    (hl : ∀ d ∈ (c.withImplicitConstructor o).constructors, d.isDesignated = true →
      d.isLowered = true) :
    (c.changes o).instanceMoved = c.hoisted.length ↔
      (c.isInner = true → ∀ k ∈ c.constructors, k.isLowered = true) := by
  by_cases hs : ∀ k ∈ c.constructors, k.isLowered = true
  · have hall : ∀ k ∈ (c.withImplicitConstructor o).constructors, k.isLowered = true := by
      intro k hk
      rcases implicit_or_mem_constructors o hi hk with rfl | hm
      · exact hl _ hk rfl
      · exact hs k hm
    obtain ⟨d, hm, hdes⟩ := exists_designated_of_fault? hi hf o
    exact iff_of_true (instanceMoved_of_lowered hi hall hm hdes) fun _ => hs
  · obtain ⟨k, hk, hkl⟩ : ∃ k ∈ c.constructors, k.isLowered = false := by simpa using hs
    rw [instanceMoved_of_source hi (mem_constructors_withImplicitConstructor o hi hk) hkl,
      length_enclosingAssignment]
    cases c.isInner with
    | true => exact iff_of_false (by simp) fun hall => hs (hall rfl)
    | false => exact iff_of_true (by simp) nofun

end Complete

/-- The report counts the constructors that a run lowers. What it counts as moved is the most that
the run puts into a constructor, unless the class is an inner one and all that the run lowers
delegates: then the assignment of the enclosing instance is counted and goes nowhere. -/
theorem normalize_counts_constructors {o : Options} {c c' : ClassDecl} {s : Summary}
    (hc : c.kind = .ordinary) (h : c.normalize o = .ok (c', s)) :
    s.constructorsLowered = c.newlyLowered c' ∧
      (s.instanceMoved = c.largestGain c' ↔
        (c.isInner = true → (∃ k ∈ c.constructors, k.isLowered = false) →
          ∃ d ∈ c.constructors, d.isDesignated = true ∧ d.isLowered = false)) := by
  obtain ⟨hf, rfl, rfl⟩ := normalize_eq_ok_iff.mp h
  have hi : c.isInterface = false := isInterface_eq_false_iff.mpr hc
  refine ⟨by rw [constructorsLowered_changes hi o, newlyLowered_normalized hi], ?_⟩
  by_cases hd : ∃ d ∈ (c.withImplicitConstructor o).constructors,
      d.isDesignated = true ∧ d.isLowered = false
  · obtain ⟨d, hd, hdes, hl⟩ := hd
    rw [instanceMoved_of_source hi hd hl, largestGain_of_source hi hf hd hdes hl]
    refine iff_of_true rfl fun _ ⟨k, hk, hkl⟩ => ?_
    rw [constructors_withImplicitConstructor o hi, if_neg (List.ne_nil_of_mem hk)] at hd
    exact ⟨d, hd, hdes, hl⟩
  · have hlowered : ∀ d ∈ (c.withImplicitConstructor o).constructors, d.isDesignated = true →
        d.isLowered = true := by
      intro d hm hdes
      by_contra hl
      exact hd ⟨d, hm, hdes, Bool.eq_false_iff.mpr hl⟩
    have hnone : ¬∃ d ∈ c.constructors, d.isDesignated = true ∧ d.isLowered = false :=
      fun ⟨d, hm, h⟩ => hd ⟨d, mem_constructors_withImplicitConstructor o hi hm, h⟩
    rw [largestGain_of_lowered hi hf hlowered, instanceMoved_eq_hoisted_iff hi hf hlowered]
    refine forall_congr' fun _ => ?_
    constructor
    · rintro hall ⟨k, hk, hl⟩
      rw [hall k hk] at hl
      cases hl
    · intro h k hk
      by_contra hl
      exact hnone (h ⟨k, hk, Bool.eq_false_iff.mpr hl⟩)

def leaf : ClassDecl where
  type := ⟨⟨1⟩, "Leaf"⟩
  kind := .ordinary
  superclass := none
  enclosing := [.to ⟨⟨2⟩, "Tree"⟩]
  members := [.constructor (.ofBody "init" [] [])]
  span := .synthetic

def turnedLeaf : ClassDecl :=
  [.field { Field.ofName "color" "int" with initializer := some (.int 0 .synthetic) },
    .constructor (.ofBody "initTwice" [] [.toSibling "init" []]),
    .constructor (.ofBody "initWithColor:" [.declared "c" "int"] [.ofExpr (.localVar "c")])].foldl
    push (leaf.normalized .standard)

theorem normalize_counts_constructors_turnedLeaf :
    turnedLeaf.kind = .ordinary ∧ ∃ c' s, turnedLeaf.normalize .standard = .ok (c', s) ∧
      turnedLeaf.preambleGains c' = [1, 0, 2] ∧ s.constructorsLowered = turnedLeaf.newlyLowered c' ∧
      s.instanceMoved = turnedLeaf.largestGain c' := by
  have h : turnedLeaf.normalize .standard =
      .ok (turnedLeaf.normalized .standard, turnedLeaf.changes .standard) :=
    normalize_eq_ok_iff.mpr ⟨by decide +kernel, rfl, rfl⟩
  have hd : ∃ d ∈ turnedLeaf.constructors, d.isDesignated = true ∧ d.isLowered = false := by
    decide +kernel
  obtain ⟨hlowered, hmoved⟩ := normalize_counts_constructors (c := turnedLeaf) rfl h
  exact ⟨rfl, _, _, h, by decide +kernel, hlowered, hmoved.mpr fun _ _ => hd⟩

def twiceLeaf : ClassDecl :=
  (leaf.normalized .standard).push (.constructor (.ofBody "initTwice" [] [.toSibling "init" []]))

/-- One statement is reported as moved, though none went into any constructor. -/
theorem not_counts_constructors_twiceLeaf :
    twiceLeaf.kind = .ordinary ∧ ∃ c' s, twiceLeaf.normalize .standard = .ok (c', s) ∧
      s.instanceMoved = 1 ∧ twiceLeaf.largestGain c' = 0 := by
  refine ⟨rfl, _, _, normalize_eq_ok_iff.mpr ⟨by decide +kernel, rfl, rfl⟩, ?_, ?_⟩
  · decide +kernel
  · decide +kernel

end ClassDecl

end ExplicitInit
