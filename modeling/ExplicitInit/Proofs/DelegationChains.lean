import ExplicitInit.Proofs.NormalizedConstructors

namespace ExplicitInit

/-- Going from sibling to sibling, a constructor comes to a designated one. -/
inductive ReachesDesignated (all : List Constructor) : Constructor → Prop
  | designated {k : Constructor} (hk : k.sibling? = none) : ReachesDesignated all k
  | delegating {k next : Constructor} {selector : String} {i : Nat}
      (hk : k.sibling? = some selector) (hl : lastConstructor? selector all = some (i, next))
      (hn : ReachesDesignated all next) : ReachesDesignated all k

theorem chainEnd_of_designated {all : List Constructor} {fresh : List Nat} {k : Constructor}
    (h : k.sibling? = none) : chainEnd all fresh k = .designated := by
  rw [chainEnd, h]

theorem ReachesDesignated.of_chainEnd {all : List Constructor} {fresh : List Nat} {k : Constructor}
    (h : chainEnd all fresh k = .designated) : ReachesDesignated all k := by
  fun_induction chainEnd all fresh k with
  | case1 _ _ hk => exact .designated hk
  | case2 => cases h
  | case3 fresh k selector hk i next hl hi ih => exact .delegating hk hl (ih h)
  | case4 => cases h

theorem ReachesDesignated.exists_designated {all : List Constructor} {k : Constructor}
    (h : ReachesDesignated all k) (hk : k ∈ all) : ∃ d ∈ all, d.isDesignated = true := by
  induction h with
  | designated hd => exact ⟨_, hk, by simp [Constructor.isDesignated, hd]⟩
  | delegating _ hl _ ih => exact ih (List.mem_of_getElem? (lastConstructor?_get hl).1)

section Map

variable {f : Constructor → Constructor} (hs : ∀ k, (f k).selector = k.selector)

include hs

theorem lastConstructor?_map (selector : String) (all : List Constructor) :
    lastConstructor? selector (all.map f) =
      (lastConstructor? selector all).map fun (i, k) => (i, f k) := by
  induction all with
  | nil => rfl
  | cons k ks ih =>
    rw [List.map_cons, lastConstructor?, lastConstructor?, ih]
    cases lastConstructor? selector ks with
    | some found => rfl
    | none => by_cases hk : k.selector = selector <;> simp [hs, hk]

variable (hd : ∀ k, (f k).sibling? = k.sibling?)

include hd

theorem chainEnd_map (all : List Constructor) (fresh : List Nat) (k : Constructor) :
    chainEnd (all.map f) fresh (f k) = chainEnd all fresh k := by
  fun_induction chainEnd all fresh k with
  | case1 _ _ hk => exact chainEnd_of_designated ((hd _).trans hk)
  | case2 fresh k selector hk hl => rw [chainEnd, hd, hk]; simp [lastConstructor?_map hs, hl]
  | case3 fresh k selector hk i next hl hi ih =>
    rw [chainEnd, hd, hk]
    simp [lastConstructor?_map hs, hl, hi, ih]
  | case4 fresh k selector hk i next hl hi =>
    rw [chainEnd, hd, hk]
    simp [lastConstructor?_map hs, hl, hi]

theorem delegationFault?_map {c d : ClassDecl} (hh : d.header = c.header)
    (hk : d.constructors = c.constructors.map f) : d.delegationFault? = c.delegationFault? := by
  have hn : d.type.name = c.type.name := ClassDecl.eq_of_header (·.type.name) (fun _ => rfl) hh
  unfold ClassDecl.delegationFault?
  rw [hk, List.zipIdx_map, List.findSome?_map]
  congr 1
  funext ⟨k, i⟩
  simp [ClassDecl.chainFault?, ClassDecl.chainEndFrom, hk, chainEnd_map hs hd, hn, hs]

end Map

namespace ClassDecl

theorem reachesDesignated_of_delegationFault? {c : ClassDecl} (h : c.delegationFault? = none)
    {k : Constructor} (hk : k ∈ c.constructors) : ReachesDesignated c.constructors k := by
  obtain ⟨i, hi⟩ := List.mem_iff_getElem?.mp hk
  have hm : (k, i) ∈ c.constructors.zipIdx := List.mk_mem_zipIdx_iff_getElem?.mpr hi
  have hf : c.chainFault? k i = none := List.findSome?_eq_none_iff.mp h (k, i) hm
  have he : c.chainEndFrom k i = .designated := by
    unfold chainFault? at hf
    split at hf
    · assumption
    · cases hf
    · cases hf
  exact .of_chainEnd he

theorem delegationFault?_of_constructors_eq_nil {c : ClassDecl} (h : c.constructors = []) :
    c.delegationFault? = none := by
  simp [delegationFault?, h]

theorem delegationFault?_withImplicitConstructor (o : Options) {c : ClassDecl}
    (h : c.isInterface = false) :
    (c.withImplicitConstructor o).delegationFault? = c.delegationFault? := by
  by_cases hk : c.constructors = []
  · have hi : (c.withImplicitConstructor o).constructors = [.implicit o.defaultSelector] := by
      rw [constructors_withImplicitConstructor o h, if_pos hk]
    rw [delegationFault?_of_constructors_eq_nil hk, delegationFault?, hi]
    have hs : (Constructor.implicit o.defaultSelector).sibling? = none := rfl
    simp [chainFault?, chainEndFrom, chainEnd_of_designated hs]
  · simp [withImplicitConstructor, lacksConstructor, h, hk]

theorem delegationFault?_normalized (o : Options) {c : ClassDecl} (h : c.isInterface = false) :
    (c.normalized o).delegationFault? = c.delegationFault? := by
  rw [← delegationFault?_withImplicitConstructor o h]
  exact delegationFault?_map (normalConstructor_selector o c) (normalConstructor_sibling? o c)
    ((header_normalized o c).trans (header_withImplicitConstructor o c).symm)
    (constructors_normalized o h)

/-- Each constructor that a class has when it is complete leads to a designated one. -/
theorem reachesDesignated_of_fault? (o : Options) {c : ClassDecl} (h : c.isInterface = false)
    (hf : c.delegationFault? = none) {k : Constructor}
    (hk : k ∈ (c.withImplicitConstructor o).constructors) :
    ReachesDesignated (c.withImplicitConstructor o).constructors k :=
  reachesDesignated_of_delegationFault?
    ((delegationFault?_withImplicitConstructor o h).trans hf) hk

end ClassDecl

end ExplicitInit
