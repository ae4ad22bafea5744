import ExplicitInit.Proofs.ChainEnds
import ExplicitInit.Proofs.Idempotence
import ExplicitInit.Proofs.Lists
import Mathlib.Logic.Relation

namespace ExplicitInit

open Relation

/-- The constructor in one place leaves the initialization to the one in the other, the last of the
selector that it names. -/
def DelegatesTo (all : List Constructor) (i j : Nat) : Prop :=
  ∃ k next, all[i]? = some k ∧ all[j]? = some next ∧ k.sibling? = some next.selector ∧
    ∀ l later, j < l → all[l]? = some later → later.selector ≠ next.selector

def Resolves (all : List Constructor) (i : Nat) : Prop :=
  ∃ j k, ReflTransGen (DelegatesTo all) i j ∧ all[j]? = some k ∧ k.sibling? = none

def GoesAstray (all : List Constructor) (i : Nat) (selector : String) : Prop :=
  ∃ j k, ReflTransGen (DelegatesTo all) i j ∧ all[j]? = some k ∧ k.sibling? = some selector ∧
    ∀ x ∈ all, x.selector ≠ selector

def Repeats (all : List Constructor) (i : Nat) : Prop :=
  ∃ j, ReflTransGen (DelegatesTo all) i j ∧ TransGen (DelegatesTo all) j j

section Last

variable {selector : String} {all : List Constructor} {j : Nat} {next : Constructor}

theorem lastConstructor?_eq_some_iff :
    lastConstructor? selector all = some (j, next) ↔ all[j]? = some next ∧
      next.selector = selector ∧
        ∀ l later, j < l → all[l]? = some later → later.selector ≠ selector := by
  induction all generalizing j with
  | nil => simp [lastConstructor?]
  | cons k ks ih =>
    rw [lastConstructor?]
    cases hl : lastConstructor? selector ks with
    | some found =>
      obtain ⟨i, x⟩ := found
      obtain ⟨hx, hs⟩ := lastConstructor?_get hl
      constructor
      · intro h
        cases Option.some.inj h
        obtain ⟨hget, hsel, hlast⟩ := ih.mp hl
        refine ⟨hget, hsel, fun l later hlt hlater => ?_⟩
        obtain ⟨l, rfl⟩ : ∃ m, l = m + 1 := ⟨l - 1, by omega⟩
        exact hlast l later (by omega) hlater
      · rintro ⟨hget, hsel, hlast⟩
        -- The first constructor is not the last one of the selector, as there is one in the rest.
        cases j with
        | zero => exact absurd hs (hlast (i + 1) x (by omega) hx)
        | succ j =>
          have hj := ih.mpr ⟨hget, hsel, fun l later hlt hlater =>
            hlast (l + 1) later (by omega) hlater⟩
          cases Option.some.inj (hl.symm.trans hj)
          rfl
    | none =>
      have hn := lastConstructor?_eq_none_iff.mp hl
      constructor
      · intro h
        by_cases hk : k.selector = selector
        · simp only [hk, if_true] at h
          cases Option.some.inj h
          refine ⟨rfl, hk, fun l later hlt hlater => ?_⟩
          obtain ⟨l, rfl⟩ : ∃ m, l = m + 1 := ⟨l - 1, by omega⟩
          exact hn later (List.mem_of_getElem? hlater)
        · simp [hk] at h
      · rintro ⟨hget, hsel, _⟩
        cases j with
        | zero =>
          cases Option.some.inj hget
          simp [hsel]
        | succ j => exact absurd hsel (hn next (List.mem_of_getElem? hget))

theorem delegatesTo_iff {i : Nat} {k : Constructor} (hi : all[i]? = some k) :
    DelegatesTo all i j ↔
      ∃ selector next, k.sibling? = some selector ∧
        lastConstructor? selector all = some (j, next) := by
  constructor
  · rintro ⟨k', next, hk', hj, hs, hlast⟩
    obtain rfl := Option.some.inj (hi.symm.trans hk')
    exact ⟨next.selector, next, hs, lastConstructor?_eq_some_iff.mpr ⟨hj, rfl, hlast⟩⟩
  · rintro ⟨selector, next, hs, hl⟩
    obtain ⟨hj, rfl, hlast⟩ := lastConstructor?_eq_some_iff.mp hl
    exact ⟨k, next, hi, hj, hs, hlast⟩

end Last

section Paths

variable {all : List Constructor} {i j l : Nat}

theorem DelegatesTo.eq (hj : DelegatesTo all i j) (hl : DelegatesTo all i l) : j = l := by
  obtain ⟨k, _, hi, _⟩ := id hj
  obtain ⟨selector, next, hs, hn⟩ := (delegatesTo_iff hi).mp hj
  obtain ⟨selector', next', hs', hn'⟩ := (delegatesTo_iff hi).mp hl
  obtain rfl := Option.some.inj (hs.symm.trans hs')
  exact congrArg Prod.fst (Option.some.inj (hn.symm.trans hn'))

theorem not_transGen_of_end (hij : ReflTransGen (DelegatesTo all) i j)
    (hj : ∀ l, ¬DelegatesTo all j l) : ¬TransGen (DelegatesTo all) i i := by
  induction hij using ReflTransGen.head_induction_on with
  | refl =>
    intro h
    obtain ⟨l, hl, _⟩ := TransGen.head'_iff.mp h
    exact hj l hl
  | head hstep _ ih =>
    intro h
    obtain ⟨l, hl, hback⟩ := TransGen.head'_iff.mp h
    obtain rfl := hstep.eq hl
    exact ih (TransGen.tail' hback hstep)

theorem end_unique (hij : ReflTransGen (DelegatesTo all) i j) (hj : ∀ m, ¬DelegatesTo all j m)
    (hil : ReflTransGen (DelegatesTo all) i l) (hl : ∀ m, ¬DelegatesTo all l m) : j = l := by
  have hu : Relator.RightUnique (DelegatesTo all) := fun _ _ _ => DelegatesTo.eq
  rcases ReflTransGen.total_of_right_unique hu hij hil with h | h
  · rcases h.cases_head with rfl | ⟨m, hm, _⟩
    · rfl
    · exact absurd hm (hj m)
  · rcases h.cases_head with rfl | ⟨m, hm, _⟩
    · rfl
    · exact absurd hm (hl m)

theorem not_repeats_of_end (hij : ReflTransGen (DelegatesTo all) i j)
    (hj : ∀ l, ¬DelegatesTo all j l) : ¬Repeats all i := by
  rintro ⟨l, hil, hl⟩
  have hu : Relator.RightUnique (DelegatesTo all) := fun _ _ _ => DelegatesTo.eq
  rcases ReflTransGen.total_of_right_unique hu hij hil with h | h
  · rcases h.cases_head with rfl | ⟨m, hm, _⟩
    · exact not_transGen_of_end .refl hj hl
    · exact hj m hm
  · exact not_transGen_of_end h hj hl

theorem not_delegatesTo_of_designated {k : Constructor} (hj : all[j]? = some k)
    (hk : k.sibling? = none) (l : Nat) : ¬DelegatesTo all j l := by
  intro h
  obtain ⟨selector, _, hs, _⟩ := (delegatesTo_iff hj).mp h
  rw [hk] at hs
  cases hs

theorem not_delegatesTo_of_undeclared {k : Constructor} {selector : String} (hj : all[j]? = some k)
    (hk : k.sibling? = some selector) (hn : ∀ x ∈ all, x.selector ≠ selector) (l : Nat) :
    ¬DelegatesTo all j l := by
  intro h
  obtain ⟨selector', next, hs, hl⟩ := (delegatesTo_iff hj).mp h
  obtain rfl := Option.some.inj (hk.symm.trans hs)
  rw [lastConstructor?_eq_none_iff.mpr hn] at hl
  cases hl

theorem Resolves.not_goesAstray (h : Resolves all i) (selector : String) :
    ¬GoesAstray all i selector := by
  obtain ⟨j, k, hij, hj, hk⟩ := h
  rintro ⟨j', k', hij', hj', hk', hn⟩
  obtain rfl := end_unique hij (not_delegatesTo_of_designated hj hk) hij'
    (not_delegatesTo_of_undeclared hj' hk' hn)
  obtain rfl := Option.some.inj (hj.symm.trans hj')
  rw [hk] at hk'
  cases hk'

theorem Resolves.not_repeats (h : Resolves all i) : ¬Repeats all i := by
  obtain ⟨j, k, hij, hj, hk⟩ := h
  exact not_repeats_of_end hij (not_delegatesTo_of_designated hj hk)

theorem GoesAstray.not_repeats {selector : String} (h : GoesAstray all i selector) :
    ¬Repeats all i := by
  obtain ⟨j, k, hij, hj, hk, hn⟩ := h
  exact not_repeats_of_end hij (not_delegatesTo_of_undeclared hj hk hn)

theorem GoesAstray.unique {selector selector' : String} (h : GoesAstray all i selector)
    (h' : GoesAstray all i selector') : selector = selector' := by
  obtain ⟨j, k, hij, hj, hk, hn⟩ := h
  obtain ⟨j', k', hij', hj', hk', hn'⟩ := h'
  obtain rfl := end_unique hij (not_delegatesTo_of_undeclared hj hk hn) hij'
    (not_delegatesTo_of_undeclared hj' hk' hn')
  obtain rfl := Option.some.inj (hj.symm.trans hj')
  exact Option.some.inj (hk.symm.trans hk')

end Paths

/-- What an answer of the search says of the path from a place. -/
def ChainEnd.Describes (all : List Constructor) (i : Nat) : ChainEnd → Prop
  | designated => Resolves all i
  | undeclared selector => GoesAstray all i selector
  | repeated => Repeats all i

section Search

variable {all : List Constructor} {i : Nat}

theorem ChainEnd.Describes.head {j : Nat} {answer : ChainEnd} (h : DelegatesTo all i j)
    (hj : answer.Describes all j) : answer.Describes all i := by
  cases answer with
  | designated =>
    obtain ⟨l, k, hl, hk⟩ := hj
    exact ⟨l, k, .head h hl, hk⟩
  | undeclared selector =>
    obtain ⟨l, k, hl, hk⟩ := hj
    exact ⟨l, k, .head h hl, hk⟩
  | repeated =>
    obtain ⟨l, hl, hback⟩ := hj
    exact ⟨l, .head h hl, hback⟩

theorem ChainEnd.Describes.unique {answer answer' : ChainEnd} (h : answer.Describes all i)
    (h' : answer'.Describes all i) : answer = answer' := by
  cases answer with
  | designated =>
    cases answer' with
    | designated => rfl
    | undeclared selector => exact absurd h' (Resolves.not_goesAstray h selector)
    | repeated => exact absurd h' (Resolves.not_repeats h)
  | undeclared selector =>
    cases answer' with
    | designated => exact absurd h (Resolves.not_goesAstray h' selector)
    | undeclared selector' => rw [GoesAstray.unique h h']
    | repeated => exact absurd h' (GoesAstray.not_repeats h)
  | repeated =>
    cases answer' with
    | designated => exact absurd h (Resolves.not_repeats h')
    | undeclared selector => exact absurd h (GoesAstray.not_repeats h')
    | repeated => rfl

/-- All places that are no longer fresh lie on the path to where the search is. -/
theorem describes_chainEnd {fresh : List Nat} {k : Constructor} (hi : all[i]? = some k)
    (hv : ∀ j < all.length, j ∉ fresh → ReflTransGen (DelegatesTo all) j i) :
    (chainEnd all fresh k).Describes all i := by
  fun_induction chainEnd all fresh k generalizing i with
  | case1 _ k hk => exact ⟨i, k, .refl, hi, hk⟩
  | case2 _ k selector hk hl => exact ⟨i, k, .refl, hi, hk, lastConstructor?_eq_none_iff.mp hl⟩
  | case3 fresh k selector hk j next hl hj ih =>
    have hstep : DelegatesTo all i j := (delegatesTo_iff hi).mpr ⟨selector, next, hk, hl⟩
    refine .head hstep (ih (lastConstructor?_get hl).1 fun m hm hfresh => ?_)
    by_cases hmj : m = j
    · exact hmj ▸ .refl
    · have hm' : m ∉ fresh := fun hmem => hfresh ((List.mem_erase_of_ne hmj).mpr hmem)
      exact .tail (hv m hm hm') hstep
  | case4 fresh k selector hk j next hl hj =>
    have hstep : DelegatesTo all i j := (delegatesTo_iff hi).mpr ⟨selector, next, hk, hl⟩
    have hlt : j < all.length := (List.getElem?_eq_some_iff.mp (lastConstructor?_get hl).1).1
    exact ⟨j, .single hstep, .tail' (hv j hlt hj) hstep⟩

end Search

namespace ClassDecl

variable {c : ClassDecl} {i : Nat} {k : Constructor}

theorem describes_chainEndFrom (hi : c.constructors[i]? = some k) :
    (c.chainEndFrom k i).Describes c.constructors i := by
  refine describes_chainEnd hi fun j hj hfresh => ?_
  by_cases hji : j = i
  · exact hji ▸ .refl
  · exact absurd ((List.mem_erase_of_ne hji).mpr (List.mem_range.mpr hj)) hfresh

theorem chainEndFrom_eq_iff (hi : c.constructors[i]? = some k) (answer : ChainEnd) :
    c.chainEndFrom k i = answer ↔ answer.Describes c.constructors i := by
  constructor
  · rintro rfl
    exact describes_chainEndFrom hi
  · exact (describes_chainEndFrom hi).unique

def FirstStray (c : ClassDecl) (i : Nat) (k : Constructor) : Prop :=
  c.constructors[i]? = some k ∧ ¬Resolves c.constructors i ∧ ∀ j < i, Resolves c.constructors j

theorem resolves_iff_chainFault? (hi : c.constructors[i]? = some k) :
    Resolves c.constructors i ↔ c.chainFault? k i = none := by
  rw [chainFault?_eq_none_iff, chainEndFrom_eq_iff hi]
  rfl

theorem delegationFault?_eq_none_iff_resolves :
    c.delegationFault? = none ↔ ∀ i < c.constructors.length, Resolves c.constructors i := by
  constructor
  · intro h i hi
    have hget : c.constructors[i]? = some c.constructors[i] := List.getElem?_eq_getElem hi
    exact (resolves_iff_chainFault? hget).mpr
      (List.findSome?_eq_none_iff.mp h _ (List.mk_mem_zipIdx_iff_getElem?.mpr hget))
  · intro h
    refine List.findSome?_eq_none_iff.mpr fun ⟨k, i⟩ hk => ?_
    have hget : c.constructors[i]? = some k := List.mk_mem_zipIdx_iff_getElem?.mp hk
    exact (resolves_iff_chainFault? hget).mp (h i (List.getElem?_eq_some_iff.mp hget).1)

theorem delegationFault?_eq_some_iff {fault : Fault} :
    c.delegationFault? = some fault ↔
      ∃ i k, c.FirstStray i k ∧ c.chainFault? k i = some fault := by
  rw [delegationFault?, findSome?_zipIdx_eq_some_iff]
  refine exists₂_congr fun i k => ?_
  constructor
  · rintro ⟨hi, hf, hbefore⟩
    refine ⟨⟨hi, ?_, fun j hj => ?_⟩, hf⟩
    · intro hr
      have hn : none = some fault := ((resolves_iff_chainFault? hi).mp hr).symm.trans hf
      cases hn
    · have hlt := (List.getElem?_eq_some_iff.mp hi).1
      have hget : c.constructors[j]? = some c.constructors[j] := List.getElem?_eq_getElem _
      exact (resolves_iff_chainFault? hget).mpr (hbefore j _ hj hget)
  · rintro ⟨⟨hi, _, hbefore⟩, hf⟩
    exact ⟨hi, hf, fun j x hj hx => (resolves_iff_chainFault? hx).mp (hbefore j hj)⟩

theorem chainFault?_eq_undeclared_iff (hi : c.constructors[i]? = some k) (owner selector : String) :
    c.chainFault? k i = some (.undeclaredSibling owner selector) ↔
      owner = c.type.name ∧ GoesAstray c.constructors i selector := by
  change _ ↔ _ ∧ (ChainEnd.undeclared selector).Describes c.constructors i
  rw [← chainEndFrom_eq_iff hi, chainFault?]
  cases c.chainEndFrom k i <;> simp [eq_comm]

theorem chainFault?_eq_cycle_iff (hi : c.constructors[i]? = some k) (owner selector : String) :
    c.chainFault? k i = some (.delegationCycle owner selector) ↔
      owner = c.type.name ∧ selector = k.selector ∧ Repeats c.constructors i := by
  change _ ↔ _ ∧ _ ∧ ChainEnd.repeated.Describes c.constructors i
  rw [← chainEndFrom_eq_iff hi, chainFault?]
  cases c.chainEndFrom k i <;> simp [eq_comm]

/-- What the check of delegation says of a class: that all paths come to a designated constructor,
or how the first one fails that does not. -/
structure ChecksDelegation (c : ClassDecl) (answer : Option Fault) : Prop where
  accepted : answer = none ↔ ∀ i < c.constructors.length, Resolves c.constructors i
  undeclared (owner selector : String) : answer = some (.undeclaredSibling owner selector) ↔
    owner = c.type.name ∧ ∃ i k, c.FirstStray i k ∧ GoesAstray c.constructors i selector
  cycle (owner selector : String) : answer = some (.delegationCycle owner selector) ↔
    owner = c.type.name ∧
      ∃ i k, c.FirstStray i k ∧ selector = k.selector ∧ Repeats c.constructors i
  other (fault : Fault) : answer = some fault → fault.isDelegation = true

theorem delegationFault?_checksDelegation (c : ClassDecl) :
    c.ChecksDelegation c.delegationFault? := by
  refine ⟨delegationFault?_eq_none_iff_resolves, fun owner selector => ?_,
    fun owner selector => ?_, fun fault => isDelegation_of_delegationFault?⟩
  · rw [delegationFault?_eq_some_iff]
    constructor
    · rintro ⟨i, k, hk, hf⟩
      obtain ⟨ho, hs⟩ := (chainFault?_eq_undeclared_iff hk.1 owner selector).mp hf
      exact ⟨ho, i, k, hk, hs⟩
    · rintro ⟨ho, i, k, hk, hs⟩
      exact ⟨i, k, hk, (chainFault?_eq_undeclared_iff hk.1 owner selector).mpr ⟨ho, hs⟩⟩
  · rw [delegationFault?_eq_some_iff]
    constructor
    · rintro ⟨i, k, hk, hf⟩
      obtain ⟨ho, hs⟩ := (chainFault?_eq_cycle_iff hk.1 owner selector).mp hf
      exact ⟨ho, i, k, hk, hs⟩
    · rintro ⟨ho, i, k, hk, hs⟩
      exact ⟨i, k, hk, (chainFault?_eq_cycle_iff hk.1 owner selector).mpr ⟨ho, hs⟩⟩

def delegations (c : ClassDecl) : List (String × Option String) :=
  c.constructors.map fun k => (k.selector, k.sibling?)

theorem delegations_normalized (o : Options) (hi : c.interfaceFault? = none) :
    (c.normalized o).delegations =
      if c.lacksConstructor then [(o.defaultSelector, none)] else c.delegations := by
  cases hc : c.isInterface with
  | true =>
    have hk := interfaceFault?_eq_none_iff.mp hi hc
    simp [delegations, constructors_normalized_of_interface hc, hk, lacksConstructor, hc]
  | false =>
    have hf (k : Constructor) : ((c.normalConstructor o k).selector,
        (c.normalConstructor o k).sibling?) = (k.selector, k.sibling?) := by simp
    rw [delegations, constructors_normalized o hc, List.map_map, Function.comp_def]
    simp only [hf, constructors_withImplicitConstructor o hc]
    by_cases hk : c.constructors = []
    · rw [if_pos hk, if_pos (by simp [lacksConstructor, hc, hk])]
      rfl
    · rw [if_neg hk, if_neg (by simp [lacksConstructor, hc, hk])]
      rfl

/-- Validation of delegation is exact, whatever form constructors have. A normalized class is
accepted again, and each constructor in it delegates as it did before. -/
theorem normalize_keeps_delegation (c : ClassDecl) :
    c.ChecksDelegation c.delegationFault? ∧
      ∀ (o : Options) (c' : ClassDecl) (s : Summary), c.normalize o = .ok (c', s) →
        c'.delegationFault? = none ∧ c'.delegations =
          if c.lacksConstructor then [(o.defaultSelector, none)] else c.delegations := by
  refine ⟨delegationFault?_checksDelegation c, fun o c' s h => ?_⟩
  obtain ⟨hf, rfl, _⟩ := normalize_eq_ok_iff.mp h
  obtain ⟨_, hd, _⟩ := fault?_eq_none_iff.mp (fault?_normalized (o := o) hf)
  exact ⟨hd, delegations_normalized o (fault?_eq_none_iff.mp hf).1⟩

def relayed : ClassDecl where
  type := ⟨⟨1⟩, "Person"⟩
  kind := .ordinary
  superclass := none
  enclosing := []
  members := [
    .constructor (.ofBody "init" [] [.toSibling "initWithName:" [.ofText "none"]]),
    .constructor (.ofBody "initWithName:" [.declared "name" "String"] [.toSibling "init" []]),
    .constructor (.ofBody "initWithName:" [.declared "name" "String"] [
      .returning (some (.hook "register" (Invocation.toSibling "initWithAge:" []).toExpr
        .synthetic))]),
    .constructor (.ofBody "initWithAge:" [.declared "age" "int"] [
      .allocationGuard (.toSibling "initOnce" []) (.ofList [.ofExpr (.localVar "age")]) .synthetic,
      .returning (some (.hook "register" (.self .synthetic) .synthetic))]),
    .constructor (.ofBody "initOnce" [] [])]
  span := .synthetic

theorem normalize_keeps_delegation_relayed :
    ∃ c' s, relayed.normalize .standard = .ok (c', s) ∧
      relayed.ChecksDelegation relayed.delegationFault? ∧ c'.delegationFault? = none ∧
      c'.delegations = relayed.delegations := by
  have h : relayed.normalize .standard =
      .ok (relayed.normalized .standard, relayed.changes .standard) :=
    normalize_eq_ok_iff.mpr ⟨by decide +kernel, rfl, rfl⟩
  obtain ⟨hc, hn⟩ := normalize_keeps_delegation relayed
  exact ⟨_, _, h, hc, hn _ _ _ h⟩

end ClassDecl

end ExplicitInit
