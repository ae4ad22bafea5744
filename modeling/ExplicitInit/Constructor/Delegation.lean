import ExplicitInit.Class.Lookup
import ExplicitInit.Fault

namespace ExplicitInit

def lastConstructor? (selector : String) : List Constructor → Option (Nat × Constructor)
  | [] => none
  | k :: ks =>
    match lastConstructor? selector ks with
    | some (i, found) => some (i + 1, found)
    | none => if k.selector = selector then some (0, k) else none

theorem lastConstructor?_eq_none_iff {selector : String} {ks : List Constructor} :
    lastConstructor? selector ks = none ↔ ∀ k ∈ ks, k.selector ≠ selector := by
  induction ks with
  | nil => simp [lastConstructor?]
  | cons k ks ih =>
    unfold lastConstructor?
    split
    · rename_i i found hl
      simp [hl] at ih
      simp [ih]
    · rename_i hl
      have hks := ih.mp hl
      by_cases hk : k.selector = selector
      · simp [hk]
      · simpa [hk] using hks

theorem lastConstructor?_get {selector : String} {ks : List Constructor} {i : Nat}
    {found : Constructor} (h : lastConstructor? selector ks = some (i, found)) :
    ks[i]? = some found ∧ found.selector = selector := by
  induction ks generalizing i with
  | nil => simp [lastConstructor?] at h
  | cons k ks ih =>
    unfold lastConstructor? at h
    split at h
    · rename_i j later hl
      cases Option.some.inj h
      exact ih hl
    · split at h
      · rename_i hk
        cases Option.some.inj h
        exact ⟨rfl, hk⟩
      · simp at h

inductive ChainEnd where
  | designated
  | undeclared (selector : String)
  /-- The chain comes to a constructor for the second time. -/
  | repeated
deriving DecidableEq

/-- Follows the chain from a constructor among all of them; `fresh` are the positions to which it
has not come yet. -/
def chainEnd (all : List Constructor) (fresh : List Nat) (k : Constructor) : ChainEnd :=
  match k.sibling? with
  | none => .designated
  | some selector =>
    match lastConstructor? selector all with
    | none => .undeclared selector
    | some (i, next) => if i ∈ fresh then chainEnd all (fresh.erase i) next else .repeated
termination_by fresh.length
decreasing_by
  have hi : i ∈ fresh := by assumption
  have := List.length_erase_of_mem hi
  have := List.length_pos_of_mem hi
  omega

namespace ClassDecl

def chainEndFrom (c : ClassDecl) (k : Constructor) (position : Nat) : ChainEnd :=
  chainEnd c.constructors ((List.range c.constructors.length).erase position) k

def chainFault? (c : ClassDecl) (k : Constructor) (position : Nat) : Option Fault :=
  match c.chainEndFrom k position with
  | .designated => none
  | .undeclared selector => some (.undeclaredSibling c.type.name selector)
  | .repeated => some (.delegationCycle c.type.name k.selector)

/-- The fault of the first constructor whose chain does not come to a designated one. -/
def delegationFault? (c : ClassDecl) : Option Fault :=
  c.constructors.zipIdx.findSome? fun (k, i) => c.chainFault? k i

end ClassDecl

end ExplicitInit
