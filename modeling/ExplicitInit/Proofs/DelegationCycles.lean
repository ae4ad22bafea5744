import ExplicitInit.Proofs.DelegationPaths

namespace ExplicitInit

open Relation

/-- The path from a place comes back to it. -/
def IsOnCycle (all : List Constructor) (i : Nat) : Prop :=
  TransGen (DelegatesTo all) i i

section Cycles

variable {all : List Constructor} {i j : Nat}

theorem IsOnCycle.repeats (h : IsOnCycle all i) : Repeats all i :=
  ⟨i, .refl, h⟩

theorem Repeats.not_resolves (h : Repeats all i) : ¬Resolves all i :=
  fun hr => hr.not_repeats h

theorem IsOnCycle.exists_sibling? {k : Constructor} (h : IsOnCycle all i) (hi : all[i]? = some k) :
    ∃ x ∈ all, x.sibling? = some k.selector := by
  obtain ⟨j, _, hstep⟩ := TransGen.tail'_iff.mp h
  obtain ⟨x, next, hj, hget, hs, _⟩ := hstep
  obtain rfl := Option.some.inj (hi.symm.trans hget)
  exact ⟨x, List.mem_of_getElem? hj, hs⟩

theorem eq_of_selector_eq {k x : Constructor} (hd : (all.map Constructor.selector).Nodup)
    (hi : all[i]? = some k) (hj : all[j]? = some x) (hs : x.selector = k.selector) : i = j := by
  have hlt : i < (all.map Constructor.selector).length := by
    rw [List.length_map]
    exact (List.getElem?_eq_some_iff.mp hi).1
  have hget : (all.map Constructor.selector)[i]? = (all.map Constructor.selector)[j]? := by
    rw [List.getElem?_map, List.getElem?_map, hi, hj, Option.map_some, Option.map_some, hs]
  exact (List.getElem?_inj hlt hd).mp hget

end Cycles

namespace ClassDecl

variable {c : ClassDecl} {owner selector : String}

/-- All constructors on a cycle stand behind the first stray one or are that one itself. -/
theorem FirstStray.le_of_isOnCycle {i j : Nat} {k : Constructor} (hf : c.FirstStray i k)
    (hj : IsOnCycle c.constructors j) : i ≤ j := by
  obtain ⟨_, _, hbefore⟩ := hf
  by_contra hlt
  exact hj.repeats.not_resolves (hbefore j (by omega))

theorem FirstStray.isOnCycle_iff {i : Nat} {k : Constructor} (hf : c.FirstStray i k)
    (hr : Repeats c.constructors i) :
    IsOnCycle c.constructors i ↔
      ∀ j, Repeats c.constructors j →
        IsOnCycle c.constructors j ∨ ∃ l < j, IsOnCycle c.constructors l := by
  constructor
  · intro hi j hj
    rcases Nat.lt_trichotomy i j with hlt | rfl | hlt
    · exact .inr ⟨i, hlt, hi⟩
    · exact .inl hi
    · exact absurd (hf.2.2 j hlt) hj.not_resolves
  · intro hall
    rcases hall i hr with hi | ⟨l, hlt, hl⟩
    · exact hi
    · have hle := hf.le_of_isOnCycle hl
      omega

/-- The constructor that a reported cycle names leads into a cycle. It is on one exactly if each
constructor that only leads into a cycle has one that is on a cycle in front of it. -/
theorem delegationFault?_isOnCycle_iff (hd : (c.constructors.map Constructor.selector).Nodup)
    (h : c.delegationFault? = some (.delegationCycle owner selector)) :
    (∃ i k, c.constructors[i]? = some k ∧ k.selector = selector ∧ Repeats c.constructors i) ∧
      ((∀ i k, c.constructors[i]? = some k → k.selector = selector →
          IsOnCycle c.constructors i) ↔
        ∀ j, Repeats c.constructors j →
          IsOnCycle c.constructors j ∨ ∃ l < j, IsOnCycle c.constructors l) := by
  obtain ⟨_, i, k, hf, rfl, hr⟩ :=
    ((delegationFault?_checksDelegation c).cycle owner selector).mp h
  refine ⟨⟨i, k, hf.1, rfl, hr⟩, ?_⟩
  rw [← hf.isOnCycle_iff hr]
  constructor
  · intro hall
    exact hall i k hf.1 rfl
  · intro hi j x hj hs
    obtain rfl := eq_of_selector_eq hd hf.1 hj hs
    exact hi

def ring : ClassDecl where
  type := ⟨⟨1⟩, "Ring"⟩
  kind := .ordinary
  superclass := none
  enclosing := []
  members := [
    .constructor (.ofBody "initLeft" [] [.toSibling "initRight" []]),
    .constructor (.ofBody "initRight" [] [.toSibling "initLeft" []]),
    .constructor (.ofBody "init" [] [.toSibling "initRight" []])]
  span := .synthetic

theorem isOnCycle_ring : IsOnCycle ring.constructors 0 := by
  have hright : DelegatesTo ring.constructors 0 1 :=
    (delegatesTo_iff rfl).mpr ⟨"initRight", _, rfl, by rfl⟩
  have hleft : DelegatesTo ring.constructors 1 0 :=
    (delegatesTo_iff rfl).mpr ⟨"initLeft", _, rfl, by rfl⟩
  exact .tail (.single hright) hleft

theorem delegationFault?_isOnCycle_iff_ring :
    (ring.constructors.map Constructor.selector).Nodup ∧
      ring.delegationFault? = some (.delegationCycle "Ring" "initLeft") ∧
      ∀ i k, ring.constructors[i]? = some k → k.selector = "initLeft" →
        IsOnCycle ring.constructors i := by
  have hd : (ring.constructors.map Constructor.selector).Nodup := by decide +kernel
  have h : ring.delegationFault? = some (.delegationCycle "Ring" "initLeft") := by decide +kernel
  refine ⟨hd, h, (delegationFault?_isOnCycle_iff hd h).2.mpr fun j _ => ?_⟩
  rcases Nat.eq_zero_or_pos j with rfl | hj
  · exact .inl isOnCycle_ring
  · exact .inr ⟨0, hj, isOnCycle_ring⟩

def knot : ClassDecl where
  type := ⟨⟨1⟩, "Knot"⟩
  kind := .ordinary
  superclass := none
  enclosing := []
  members := [
    .constructor (.ofBody "init" [] [.toSibling "initLeft" []]),
    .constructor (.ofBody "initLeft" [] [.toSibling "initRight" []]),
    .constructor (.ofBody "initRight" [] [.toSibling "initLeft" []])]
  span := .synthetic

/-- The report names a constructor to which none delegates. -/
theorem not_isOnCycle_knot :
    (knot.constructors.map Constructor.selector).Nodup ∧
      knot.delegationFault? = some (.delegationCycle "Knot" "init") ∧
      ∃ i k, knot.constructors[i]? = some k ∧ k.selector = "init" ∧
        ¬IsOnCycle knot.constructors i := by
  refine ⟨by decide +kernel, by decide +kernel, 0, _, rfl, rfl, fun h => ?_⟩
  obtain ⟨x, hx, hs⟩ := h.exists_sibling? rfl
  have hnone : ∀ x ∈ knot.constructors, x.sibling? ≠ some "init" := by decide +kernel
  exact hnone x hx hs

end ClassDecl

end ExplicitInit
