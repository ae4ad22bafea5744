import ExplicitInit.Proofs.Acceptance
import ExplicitInit.Proofs.ChainEnds
import ExplicitInit.Proofs.Initializers
import ExplicitInit.Proofs.Violations

namespace ExplicitInit

def Fault.isBinding : Fault → Bool
  | unboundName .. | noEnclosingInstance .. => true
  | undeclaredSibling .. | delegationCycle .. => false
  | interfaceConstructor .. | unknownBoundary .. => false

theorem Fault.isBinding_eq_false {fault : Fault} (h : fault.isDelegation = true) :
    fault.isBinding = false := by
  cases fault <;> first | rfl | cases h

/-- It was lowered by an earlier run that did not leave the end of its preamble. -/
def Constructor.LacksBoundary (k : Constructor) : Prop :=
  k.isLowered = true ∧ k.isDesignated = true ∧ k.boundary? = none

namespace ClassDecl

def HasInterfaceConstructor (c : ClassDecl) : Prop :=
  c.kind = .interface ∧ c.constructors ≠ []

def HasStrayChain (c : ClassDecl) : Prop :=
  ∃ k ∈ c.constructors, ¬ReachesDesignated c.constructors k

/-- There is something to add to a preamble, and this is the first constructor that does not say
where to add it. -/
def FirstUnbounded (c : ClassDecl) (k : Constructor) : Prop :=
  c.preamble .ofInstance ≠ [] ∧ ∃ before after, c.constructors = before ++ k :: after ∧
    k.LacksBoundary ∧ ∀ earlier ∈ before, ¬earlier.LacksBoundary

/-- What a result says of a class: which fault comes first, or that there is none. -/
structure RejectsFirst {α : Type} (c : ClassDecl) (result : Except Fault α) : Prop where
  interface (owner : String) : result = .error (.interfaceConstructor owner) ↔
    owner = c.type.name ∧ c.HasInterfaceConstructor
  delegation : (∃ fault, fault.isDelegation = true ∧ result = .error fault) ↔
    ¬c.HasInterfaceConstructor ∧ c.HasStrayChain
  boundary (owner selector : String) : result = .error (.unknownBoundary owner selector) ↔
    ¬c.HasInterfaceConstructor ∧ ¬c.HasStrayChain ∧ owner = c.type.name ∧
      ∃ k, c.FirstUnbounded k ∧ selector = k.selector
  binding (fault : Fault) : fault.isBinding = true ∧ result = .error fault ↔
    ¬c.HasInterfaceConstructor ∧ ¬c.HasStrayChain ∧ (∀ k, ¬c.FirstUnbounded k) ∧
      c.violations.head? = some fault
  accepted : (∃ a, result = .ok a) ↔
    ¬c.HasInterfaceConstructor ∧ ¬c.HasStrayChain ∧ (∀ k, ¬c.FirstUnbounded k) ∧ c.violations = []

variable {c : ClassDecl}

section Conditions

theorem interfaceFault?_of (h : c.HasInterfaceConstructor) :
    c.interfaceFault? = some (.interfaceConstructor c.type.name) := by
  have hi := isInterface_eq_true_iff.mpr h.1
  simp [interfaceFault?, hi, h.2]

theorem interfaceFault?_of_not (h : ¬c.HasInterfaceConstructor) : c.interfaceFault? = none := by
  refine interfaceFault?_eq_none_iff.mpr fun hi => ?_
  exact not_not.mp (not_and.mp h (isInterface_eq_true_iff.mp hi))

theorem hasStrayChain_iff : c.HasStrayChain ↔ c.delegationFault? ≠ none := by
  rw [HasStrayChain, Ne, delegationFault?_eq_none_iff]
  simp

theorem boundaryFault?_eq (h : ¬c.HasInterfaceConstructor) : c.boundaryFault? =
    if c.preamble .ofInstance = [] then none
    else (c.constructors.find? fun k => k.isLowered && k.isDesignated && k.boundary?.isNone).map
      fun k => .unknownBoundary c.type.name k.selector := by
  cases hi : c.isInterface with
  | true =>
    have hk := interfaceFault?_eq_none_iff.mp (interfaceFault?_of_not h) hi
    simp [boundaryFault?, hk]
  | false =>
    have hp := hasPendingInitializer_eq_false_iff hi
    rw [← preamble_ofInstance hi] at hp
    rw [boundaryFault?]
    by_cases he : c.preamble .ofInstance = []
    · rw [if_pos he, hp.mpr he]
      rfl
    · rw [if_neg he, if_pos ((Bool.not_eq_false _).mp fun hf => he (hp.mp hf))]

theorem lacksBoundary_iff (k : Constructor) :
    (k.isLowered && k.isDesignated && k.boundary?.isNone) = true ↔ k.LacksBoundary := by
  simp [Constructor.LacksBoundary, and_assoc]

theorem boundaryFault?_eq_some_iff {fault : Fault} (h : ¬c.HasInterfaceConstructor) :
    c.boundaryFault? = some fault ↔
      ∃ k, c.FirstUnbounded k ∧ fault = .unknownBoundary c.type.name k.selector := by
  rw [boundaryFault?_eq h]
  by_cases he : c.preamble .ofInstance = []
  · simp [he, FirstUnbounded]
  · simp only [he, if_false, Option.map_eq_some_iff, List.find?_eq_some_iff_append,
      lacksBoundary_iff, Bool.not_eq_true', ← Bool.not_eq_true, FirstUnbounded, ne_eq,
      not_false_eq_true, true_and]
    constructor
    · rintro ⟨k, ⟨hk, before, after, hs, hb⟩, rfl⟩
      exact ⟨k, ⟨before, after, hs, hk, hb⟩, rfl⟩
    · rintro ⟨k, ⟨before, after, hs, hk, hb⟩, rfl⟩
      exact ⟨k, ⟨hk, before, after, hs, hb⟩, rfl⟩

theorem boundaryFault?_eq_none (h : ¬c.HasInterfaceConstructor) :
    c.boundaryFault? = none ↔ ∀ k, ¬c.FirstUnbounded k := by
  constructor
  · intro hn k hk
    have hs := (boundaryFault?_eq_some_iff h).mpr ⟨k, hk, rfl⟩
    rw [hn] at hs
    cases hs
  · intro hk
    cases hb : c.boundaryFault? with
    | none => rfl
    | some fault =>
      obtain ⟨k, hu, _⟩ := (boundaryFault?_eq_some_iff h).mp hb
      exact absurd hu (hk k)

theorem firstUnbounded_unique {k k' : Constructor} (h : ¬c.HasInterfaceConstructor)
    (hk : c.FirstUnbounded k) (hk' : c.FirstUnbounded k') : k.selector = k'.selector := by
  have h₁ := (boundaryFault?_eq_some_iff h).mpr ⟨k, hk, rfl⟩
  have h₂ := (boundaryFault?_eq_some_iff h).mpr ⟨k', hk', rfl⟩
  exact (Fault.unknownBoundary.inj (Option.some.inj (h₁.symm.trans h₂))).2

theorem isBinding_of_violation? {e : Expr} {fault : Fault} (h : c.violation? e = some fault) :
    fault.isBinding = true := by
  unfold violation? at h
  split at h
  · cases h
    rfl
  · split at h
    · cases h
    · cases h
      rfl
  · cases h
    rfl
  · cases h

theorem isBinding_of_mem_violations {fault : Fault} (h : fault ∈ c.violations) :
    fault.isBinding = true := by
  obtain ⟨m, _, hm⟩ := List.mem_flatMap.mp h
  obtain ⟨e, _, he⟩ := List.mem_filterMap.mp hm
  exact isBinding_of_violation? he

end Conditions

/-- The four checks in their order, each with the condition on which its fault is the answer. -/
theorem fault?_cases (c : ClassDecl) :
    (c.HasInterfaceConstructor ∧ c.fault? = some (.interfaceConstructor c.type.name)) ∨
    (¬c.HasInterfaceConstructor ∧ c.HasStrayChain ∧
      ∃ fault, fault.isDelegation = true ∧ c.fault? = some fault) ∨
    (¬c.HasInterfaceConstructor ∧ ¬c.HasStrayChain ∧
      ∃ k, c.FirstUnbounded k ∧ c.fault? = some (.unknownBoundary c.type.name k.selector)) ∨
    (¬c.HasInterfaceConstructor ∧ ¬c.HasStrayChain ∧ (∀ k, ¬c.FirstUnbounded k) ∧
      c.fault? = c.violations.head?) := by
  unfold fault?
  rw [scopeFault?_eq_head?]
  by_cases hi : c.HasInterfaceConstructor
  · exact .inl ⟨hi, by rw [interfaceFault?_of hi]; rfl⟩
  refine .inr ?_
  simp only [interfaceFault?_of_not hi, hi, not_false_eq_true, true_and, hasStrayChain_iff]
  cases hd : c.delegationFault? with
  | some fault => exact .inl ⟨by simp, fault, isDelegation_of_delegationFault? hd, by simp⟩
  | none =>
    cases hb : c.boundaryFault? with
    | some fault =>
      obtain ⟨k, hk, rfl⟩ := (boundaryFault?_eq_some_iff hi).mp hb
      exact .inr (.inl ⟨by simp, k, hk, by simp⟩)
    | none => exact .inr (.inr ⟨by simp, (boundaryFault?_eq_none hi).mp hb, by simp⟩)

theorem exists_normalize_eq_ok_iff (o : Options) :
    (∃ a, c.normalize o = .ok a) ↔ c.fault? = none := by
  unfold normalize
  cases c.fault? <;> simp

/-- A class is rejected for the first promise that it breaks, and accepted if it breaks none. -/
theorem normalize_rejectsFirst (o : Options) (c : ClassDecl) :
    c.RejectsFirst (c.normalize o) := by
  have he (fault : Fault) : c.normalize o = .error fault ↔ c.fault? = some fault :=
    normalize_eq_error_iff
  have ha := exists_normalize_eq_ok_iff (c := c) o
  -- In each case the other answers are excluded by the form of the fault.
  rcases fault?_cases c with ⟨hi, hf⟩ | ⟨hi, hs, fault, hd, hf⟩ | ⟨hi, hs, k, hk, hf⟩ |
    ⟨hi, hs, hk, hf⟩
  · constructor <;> grind [Fault.isDelegation, Fault.isBinding]
  · have hb : fault.isBinding = false := Fault.isBinding_eq_false hd
    constructor <;> grind [Fault.isDelegation]
  · have hu (k' : Constructor) (hk' : c.FirstUnbounded k') : k'.selector = k.selector :=
      firstUnbounded_unique hi hk' hk
    constructor <;> grind [Fault.isDelegation, Fault.isBinding]
  · have hb (fault : Fault) (hv : c.violations.head? = some fault) : fault.isBinding = true :=
      isBinding_of_mem_violations (List.mem_of_head? hv)
    have hn : c.violations.head? = none ↔ c.violations = [] := List.head?_eq_none_iff
    constructor <;> grind [Fault.isBinding_eq_false, Fault.isBinding]

end ClassDecl

end ExplicitInit
