import ExplicitInit.Normalize
import ExplicitInit.Proofs.Lists

namespace ExplicitInit

namespace ClassDecl

variable {c : ClassDecl}

theorem isInterface_eq_true_iff : c.isInterface = true ↔ c.kind = .interface := by
  unfold isInterface
  cases c.kind <;> decide

theorem isInterface_eq_false_iff : c.isInterface = false ↔ c.kind = .ordinary := by
  unfold isInterface
  cases c.kind <;> decide

theorem fault?_eq_none_iff :
    c.fault? = none ↔ c.interfaceFault? = none ∧ c.delegationFault? = none ∧
      c.boundaryFault? = none ∧ c.scopeFault? = none := by
  simp [fault?]

theorem interfaceFault?_eq_none_iff :
    c.interfaceFault? = none ↔ (c.isInterface = true → c.constructors = []) := by
  unfold interfaceFault?
  cases c.isInterface <;> cases c.constructors <;> simp

theorem boundaryFault?_eq_none_iff :
    c.boundaryFault? = none ↔ (c.hasPendingInitializer = true →
      ∀ k ∈ c.constructors, k.isLowered = true → k.isDesignated = true →
        k.boundary?.isSome = true) := by
  unfold boundaryFault?
  cases c.hasPendingInitializer with
  | false => simp
  | true => simp [List.find?_eq_none, Option.isSome_iff_ne_none]

theorem scopeFault?_eq_none_iff :
    c.scopeFault? = none ↔ ∀ m ∈ c.members, c.checkScope m = .ok () := by
  rw [← forM_eq_ok_iff]
  unfold scopeFault?
  cases hm : c.members.forM c.checkScope with
  | ok u => simp
  | error fault => simp

end ClassDecl

end ExplicitInit
