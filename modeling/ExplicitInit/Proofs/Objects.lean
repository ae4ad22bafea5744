import ExplicitInit.Class.Lookup
import ExplicitInit.Proofs.Lists

namespace ExplicitInit

structure Message (ν : Type) where
  receiver : ν
  selector : String
  args : List ν

structure ObjectState (ν σ : Type) where
  fields : ν → TypeId → String → ν
  sent : List (Message ν)
  other : σ

def ObjectState.withField {ν σ : Type} [DecidableEq ν] (st : ObjectState ν σ) (object : ν)
    (owner : TypeRef) (name : String) (new : ν) : ObjectState ν σ where
  fields o t x := if o = object ∧ t = owner.id ∧ x = name then new else st.fields o t x
  sent := st.sent
  other := st.other

/-- What an expression or a statement does: it gives a value and leaves a state. -/
def Run (ν σ : Type) : Type :=
  ObjectState ν σ → ν × ObjectState ν σ

/-- How a form runs its parts: in which order and how often may depend on their values and on the
state, and between them the state may change. -/
inductive Plan (ν σ : Type) where
  | give (value : ν)
  | part (i : Nat) (next : Option ν → Plan ν σ)
  | act (change : ObjectState ν σ → ObjectState ν σ) (next : ObjectState ν σ → Plan ν σ)

namespace Plan

variable {ν σ : Type}

def run (parts : List (Run ν σ)) : Plan ν σ → Run ν σ
  | give value, st => (value, st)
  | part i next, st =>
    match parts[i]? with
    | some r => run parts (next (some (r st).1)) (r st).2
    | none => run parts (next none) st
  | act change next, st => run parts (next st) (change st)

def Keeps (P : ObjectState ν σ → Prop) : Plan ν σ → Prop
  | give _ => True
  | part _ next => ∀ value, (next value).Keeps P
  | act change next => (∀ st, P st → P (change st)) ∧ ∀ st, (next st).Keeps P

end Plan

namespace Run

variable {ν σ : Type}

def give (value : ν) : Run ν σ :=
  fun st => (value, st)

def readField (holder : Run ν σ) (owner : TypeRef) (name : String) : Run ν σ :=
  fun st =>
    let (object, st') := holder st
    (st'.fields object owner.id name, st')

def writeField [DecidableEq ν] (holder : Run ν σ) (owner : TypeRef) (name : String)
    (value : Run ν σ) : Run ν σ :=
  fun st =>
    let (object, st₁) := holder st
    let (new, st₂) := value st₁
    (new, st₂.withField object owner name new)

def inOrder : List (Run ν σ) → ObjectState ν σ → List ν × ObjectState ν σ
  | [], st => ([], st)
  | r :: rs, st =>
    let (value, st₁) := r st
    let (values, st₂) := inOrder rs st₁
    (value :: values, st₂)

def send (method : Message ν → Run ν σ) (receiver : Run ν σ) (selector : String)
    (args : List (Run ν σ)) : Run ν σ :=
  fun st =>
    let (object, st₁) := receiver st
    let (values, st₂) := inOrder args st₁
    let message : Message ν := ⟨object, selector, values⟩
    method message { st₂ with sent := st₂.sent ++ [message] }

/-- Both runs do the same and keep the condition. -/
def Agree (P : ObjectState ν σ → Prop) (r r' : Run ν σ) : Prop :=
  ∀ st, P st → r' st = r st ∧ P (r st).2

section Agree

variable {P : ObjectState ν σ → Prop}

theorem Agree.give (value : ν) : Agree P (give value) (give value) :=
  fun _ h => ⟨rfl, h⟩

theorem Agree.readField {holder holder' : Run ν σ} (h : Agree P holder holder') (owner : TypeRef)
    (name : String) : Agree P (holder.readField owner name) (holder'.readField owner name) := by
  intro st hst
  obtain ⟨he, hp⟩ := h st hst
  simp only [Run.readField, he]
  exact ⟨trivial, hp⟩

theorem Agree.writeField [DecidableEq ν] {holder holder' value value' : Run ν σ} {owner : TypeRef}
    {name : String} (h : Agree P holder holder') (hv : Agree P value value')
    (hf : ∀ st object new, P st → P (st.withField object owner name new)) :
    Agree P (holder.writeField owner name value) (holder'.writeField owner name value') := by
  intro st hst
  obtain ⟨he, hp⟩ := h st hst
  obtain ⟨hve, hvp⟩ := hv _ hp
  simp only [Run.writeField, he, hve]
  exact ⟨trivial, hf _ _ _ hvp⟩

theorem agree_inOrder {rs rs' : List (Run ν σ)} (h : List.Forall₂ (Agree P) rs rs')
    {st : ObjectState ν σ} (hst : P st) :
    inOrder rs' st = inOrder rs st ∧ P (inOrder rs st).2 := by
  induction h generalizing st with
  | nil => exact ⟨rfl, hst⟩
  | cons hr _ ih =>
    obtain ⟨he, hp⟩ := hr st hst
    obtain ⟨hes, hps⟩ := ih hp
    simp only [inOrder, he, hes]
    exact ⟨trivial, hps⟩

theorem Agree.send {method : Message ν → Run ν σ} {receiver receiver' : Run ν σ} {selector : String}
    {args args' : List (Run ν σ)} (hr : Agree P receiver receiver')
    (ha : List.Forall₂ (Agree P) args args') (hm : ∀ message st, P st → P (method message st).2)
    (hs : ∀ st sent, P st → P { st with sent }) :
    Agree P (Run.send method receiver selector args)
      (Run.send method receiver' selector args') := by
  intro st hst
  obtain ⟨he, hp⟩ := hr st hst
  obtain ⟨hes, hps⟩ := agree_inOrder ha hp
  simp only [Run.send, he, hes]
  exact ⟨trivial, hm _ _ (hs _ _ hps)⟩

theorem Agree.plan {plan : Plan ν σ} {parts parts' : List (Run ν σ)}
    (h : List.Forall₂ (Agree P) parts parts') (hp : plan.Keeps P) :
    Agree P (plan.run parts) (plan.run parts') := by
  induction plan with
  | give value => exact Agree.give value
  | part i next ih =>
    intro st hst
    have hn (value : Option ν) := ih value (hp value)
    rw [Plan.run, Plan.run]
    -- A part that is missing is missing on both sides.
    rcases forall₂_getElem? h i with ⟨hi, hi'⟩ | ⟨r, r', hi, hi', hr⟩
    · simp only [hi, hi']
      exact hn none st hst
    · obtain ⟨he, hq⟩ := hr st hst
      simp only [hi, hi', he]
      exact hn _ _ hq
  | act change next ih =>
    intro st hst
    exact ih st (hp.2 st) _ (hp.1 st hst)

end Agree

end Run

end ExplicitInit
