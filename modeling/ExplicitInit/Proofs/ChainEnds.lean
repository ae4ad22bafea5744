import ExplicitInit.Proofs.DelegationChains
import Mathlib.Tactic.ByContra

namespace ExplicitInit

/-- Going from sibling to sibling, a constructor comes to a designated one in so many steps. -/
inductive ReachesIn (all : List Constructor) : Nat → Constructor → Prop
  | designated {k : Constructor} (hk : k.sibling? = none) : ReachesIn all 0 k
  | delegating {k next : Constructor} {selector : String} {i n : Nat}
      (hk : k.sibling? = some selector) (hl : lastConstructor? selector all = some (i, next))
      (hn : ReachesIn all n next) : ReachesIn all (n + 1) k

section Steps

variable {all : List Constructor} {k : Constructor}

theorem ReachesDesignated.exists_steps (h : ReachesDesignated all k) : ∃ n, ReachesIn all n k := by
  induction h with
  | designated hk => exact ⟨0, .designated hk⟩
  | delegating hk hl _ ih =>
    obtain ⟨n, hn⟩ := ih
    exact ⟨n + 1, .delegating hk hl hn⟩

theorem ReachesIn.unique {m n : Nat} (hm : ReachesIn all m k) (hn : ReachesIn all n k) :
    m = n := by
  induction hm generalizing n with
  | designated hk =>
    cases hn with
    | designated _ => rfl
    | delegating hk' =>
      rw [hk] at hk'
      cases hk'
  | delegating hk hl _ ih =>
    cases hn with
    | designated hk' =>
      rw [hk] at hk'
      cases hk'
    | delegating hk' hl' hn =>
      obtain rfl := Option.some.inj (hk.symm.trans hk')
      cases Option.some.inj (hl.symm.trans hl')
      rw [ih hn]

theorem ReachesIn.chainEnd_eq {n : Nat} {fresh : List Nat} (h : ReachesIn all n k)
    (hf : ∀ i ∉ fresh, ∀ x, all[i]? = some x → ∀ m, ReachesIn all m x → n ≤ m) :
    chainEnd all fresh k = .designated := by
  induction h generalizing fresh with
  | designated hk => exact chainEnd_of_designated hk
  | @delegating k next selector i n hk hl hn ih =>
    have hget : all[i]? = some next := (lastConstructor?_get hl).1
    have hi : i ∈ fresh := by
      by_contra hi
      have := hf i hi next hget n hn
      omega
    rw [chainEnd, hk]
    simp only [hl, if_pos hi]
    -- The position of the next constructor is no longer fresh, with the chain that is left.
    refine ih fun j hj x hx m hm => ?_
    by_cases hji : j = i
    · subst hji
      obtain rfl := Option.some.inj (hget.symm.trans hx)
      exact Nat.le_of_eq (hn.unique hm)
    · have hj' : j ∉ fresh := fun hmem => hj ((List.mem_erase_of_ne hji).mpr hmem)
      have := hf j hj' x hx m hm
      omega

end Steps

def Fault.isDelegation : Fault → Bool
  | undeclaredSibling .. | delegationCycle .. => true
  | unboundName .. | noEnclosingInstance .. | interfaceConstructor .. | unknownBoundary .. => false

namespace ClassDecl

variable {c : ClassDecl} {k : Constructor} {i : Nat}

/-- Started at a constructor of the class, the search finds a designated one exactly if the chain
comes to one. -/
theorem chainEndFrom_eq_designated_iff (hk : c.constructors[i]? = some k) :
    c.chainEndFrom k i = .designated ↔ ReachesDesignated c.constructors k := by
  refine ⟨ReachesDesignated.of_chainEnd, fun h => ?_⟩
  obtain ⟨n, hn⟩ := h.exists_steps
  refine hn.chainEnd_eq fun j hj x hx m hm => ?_
  have hj' : j ∈ List.range c.constructors.length :=
    List.mem_range.mpr (List.getElem?_eq_some_iff.mp hx).1
  have hji : j = i := by
    by_contra hji
    exact hj ((List.mem_erase_of_ne hji).mpr hj')
  subst hji
  obtain rfl := Option.some.inj (hk.symm.trans hx)
  exact Nat.le_of_eq (hn.unique hm)

theorem chainFault?_eq_none_iff :
    c.chainFault? k i = none ↔ c.chainEndFrom k i = .designated := by
  unfold chainFault?
  cases c.chainEndFrom k i <;> simp

theorem delegationFault?_eq_none_iff :
    c.delegationFault? = none ↔ ∀ k ∈ c.constructors, ReachesDesignated c.constructors k := by
  refine ⟨fun h _ => reachesDesignated_of_delegationFault? h, fun h => ?_⟩
  refine List.findSome?_eq_none_iff.mpr fun ⟨k, i⟩ hk => ?_
  have hi : c.constructors[i]? = some k := List.mk_mem_zipIdx_iff_getElem?.mp hk
  exact chainFault?_eq_none_iff.mpr
    ((chainEndFrom_eq_designated_iff hi).mpr (h k (List.mem_of_getElem? hi)))

theorem isDelegation_of_delegationFault? {fault : Fault} (h : c.delegationFault? = some fault) :
    fault.isDelegation = true := by
  obtain ⟨⟨k, i⟩, _, hf⟩ := List.exists_of_findSome?_eq_some h
  simp only [chainFault?] at hf
  split at hf
  · cases hf
  · cases Option.some.inj hf
    rfl
  · cases Option.some.inj hf
    rfl

end ClassDecl

end ExplicitInit
