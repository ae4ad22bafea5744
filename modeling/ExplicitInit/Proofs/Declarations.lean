import ExplicitInit.Proofs.Acceptance
import ExplicitInit.Proofs.Initializers
import ExplicitInit.Proofs.NormalizedConstructors
import Mathlib.Data.List.Basic

namespace ExplicitInit

def Member.declaration? : Member → Option Member
  | .field f => some (.field f)
  | .block b => some (.block b)
  | .constructor _ | .method _ => none

namespace ClassDecl

def declarations (c : ClassDecl) : List Member :=
  c.members.filterMap Member.declaration?

variable {c : ClassDecl}

section Members

theorem mem_declarations {m : Member} (h : m ∈ c.declarations) :
    m ∈ c.members ∧ m.declaration? = some m := by
  obtain ⟨m', hm, he⟩ := List.mem_filterMap.mp h
  cases m' with
  | field f => cases Option.some.inj he; exact ⟨hm, rfl⟩
  | block b => cases Option.some.inj he; exact ⟨hm, rfl⟩
  | constructor k => cases he
  | method f => cases he

theorem filterMap_declarations {β : Type} {f : Member → Option β}
    (hk : ∀ k, f (.constructor k) = none) (hm : ∀ m, f (.method m) = none) :
    c.declarations.filterMap f = c.members.filterMap f := by
  rw [declarations, List.filterMap_filterMap]
  congr 1
  funext m
  cases m with
  | field g => rfl
  | block b => rfl
  | constructor k => exact (hk k).symm
  | method g => exact (hm g).symm

theorem preamble_eq_declarations (side : Side) :
    c.preamble side = c.declarations.filterMap (c.moved side) :=
  (filterMap_declarations (fun _ => rfl) fun _ => rfl).symm

theorem fields_eq_declarations : c.fields = c.declarations.filterMap Member.field? :=
  (filterMap_declarations (fun _ => rfl) fun _ => rfl).symm

theorem declaration?_unmoved (side : Side) (m : Member) :
    (c.unmoved side m).bind Member.declaration? = m.declaration?.bind (c.unmoved side) := by
  cases m with
  | field f => rfl
  | block b => by_cases hb : (b.side == side) = true <;> simp [unmoved, hb, Member.declaration?]
  | constructor k => rfl
  | method f => rfl

theorem declarations_withoutPreamble (side : Side) :
    (c.withoutPreamble side).declarations = c.declarations.filterMap (c.unmoved side) := by
  unfold declarations withoutPreamble
  rw [List.filterMap_filterMap, List.filterMap_filterMap]
  congr 1
  funext m
  exact declaration?_unmoved side m

theorem unmoved_of_moved {side : Side} {m : Member} (h : c.moved side m = none) :
    c.unmoved side m = some m := by
  cases m with
  | field f =>
    by_cases hf : (f.side c == side && !f.stays c) = true
    · have hi : f.initializer = none := by simpa [moved, hf] using h
      obtain ⟨name, type, isStatic, isFinal, initializer, isSynthetic, span⟩ := f
      cases hi
      simp [unmoved]
    · simp only [unmoved, hf]
      rfl
  | block b =>
    by_cases hb : (b.side == side) = true
    · simp [moved, hb] at h
    · simp [unmoved, hb]
  | constructor k => rfl
  | method f => rfl

theorem withoutPreamble_of_preamble {side : Side} (h : c.preamble side = []) :
    c.withoutPreamble side = c := by
  have hm : ∀ m ∈ c.members, c.unmoved side m = some m :=
    fun m hm => unmoved_of_moved (List.filterMap_eq_nil_iff.mp h m hm)
  have hs : c.members.filterMap (c.unmoved side) = c.members := by
    rw [List.filterMap_congr hm, List.filterMap_some]
  rw [withoutPreamble, hs]

theorem unmoved_cases {side : Side} {m m' : Member} (hu : c.unmoved side m = some m') :
    m' = m ∨ ∃ f : Field, m = .field f ∧ m' = .field { f with initializer := none } := by
  cases m with
  | field f =>
    cases Option.some.inj hu
    split
    · exact .inr ⟨f, rfl, rfl⟩
    · exact .inl rfl
  | block b =>
    by_cases hb : (b.side == side) = true
    · simp [unmoved, hb] at hu
    · have hm : some (Member.block b) = some m' := by simpa [unmoved, hb] using hu
      exact .inl (Option.some.inj hm).symm
  | constructor k => exact .inl (Option.some.inj hu).symm
  | method f => exact .inl (Option.some.inj hu).symm

theorem moved_unmoved_of_moved {side other : Side} {m m' : Member} (h : c.moved other m = none)
    (hu : c.unmoved side m = some m') : c.moved other m' = none := by
  obtain rfl | ⟨f, rfl, rfl⟩ := unmoved_cases hu
  · exact h
  · exact moved_clear c other f

theorem moved_of_unmoved_other {side other : Side} (h : side ≠ other) (m : Member) :
    (c.unmoved side m).bind (c.moved other) = c.moved other m := by
  cases m with
  | field f =>
    by_cases hf : (f.side c == side && !f.stays c) = true
    · have hs : f.side c = side := by simpa using (Bool.and_eq_true_iff.mp hf).1
      simp only [unmoved, hf, if_true, Option.bind_some, moved_clear]
      simp [moved, hs, h]
    · simp [unmoved, hf]
  | block b =>
    by_cases hb : b.side = side
    · simp [unmoved, moved, hb, h]
    · simp [unmoved, hb]
  | constructor k => rfl
  | method f => rfl

end Members

section Phases

variable (o : Options)

theorem declarations_withRoles : (c.withRoles o).declarations = c.declarations :=
  filterMap_withRoles o c fun _ => rfl

theorem mem_declarations_withEnclosingField {m : Member}
    (h : m ∈ c.withEnclosingField.declarations) :
    (∃ f : Field, m = .field f ∧ f.initializer = none) ∨ m ∈ c.declarations := by
  unfold withEnclosingField at h
  split at h
  · exact .inr h
  · split at h
    · exact .inr h
    · obtain rfl | hm := List.mem_cons.mp h
      · exact .inl ⟨_, rfl, rfl⟩
      · exact .inr hm

theorem mem_declarations_withEnclosingField_of_mem {m : Member} (h : m ∈ c.declarations) :
    m ∈ c.withEnclosingField.declarations := by
  unfold withEnclosingField
  split
  · exact h
  · split
    · exact h
    · exact List.mem_cons_of_mem _ h

theorem declarations_withClassSetup :
    (c.withClassSetup o).declarations = c.declarations.filterMap (c.unmoved .ofClass) := by
  rw [← declarations_withoutPreamble]
  unfold withClassSetup
  dsimp only
  split
  · rename_i hp
    rw [withoutPreamble_of_preamble (List.isEmpty_iff.mp hp)]
  · split
    · rename_i ms' hs
      exact filterMap_intoSetup? (fun _ _ => rfl) hs
    · simp [declarations, push, Member.declaration?]

theorem declarations_withRespelling : (c.withRespelling o).1.declarations = c.declarations := by
  rw [withRespelling_eq]
  unfold declarations
  rw [List.filterMap_map]
  congr 1
  funext m
  cases m with
  | method f =>
    by_cases hf : f.kind = .classSetup <;> simp [Member.adjusted, Member.declaration?, hf]
  | _ => rfl

theorem declarations_withLowered (x : LoweringContext) (c : ClassDecl) :
    { c with members := c.members.map (Member.lowered x) }.declarations = c.declarations :=
  filterMap_map_lowered (fun _ => rfl) x c.members

end Phases

section Names

theorem fields_congr {d : ClassDecl} (h : d.declarations = c.declarations) :
    d.fields = c.fields := by
  rw [fields_eq_declarations, fields_eq_declarations, h]

theorem map_name_fields_withoutPreamble (side : Side) :
    (c.withoutPreamble side).fields.map Field.name = c.fields.map Field.name := by
  unfold fields withoutPreamble
  rw [List.filterMap_filterMap, List.map_filterMap, List.map_filterMap]
  congr 1
  funext m
  cases m with
  | field f =>
    simp only [unmoved, Member.field?, Option.bind_some, Option.map_some]
    split <;> rfl
  | block b => by_cases hb : (b.side == side) = true <;> simp [unmoved, hb, Member.field?]
  | constructor k => rfl
  | method f => rfl

theorem isSome_field?_congr {d : ClassDecl}
    (h : d.fields.map Field.name = c.fields.map Field.name) (x : String) :
    (d.field? x).isSome = (c.field? x).isSome := by
  have hany : ∀ e : ClassDecl, (e.field? x).isSome = (e.fields.map Field.name).any (· == x) := by
    intro e
    rw [field?, List.any_map, Bool.eq_iff_iff, List.find?_isSome, List.any_eq_true]
    rfl
  rw [hany, hany, h]

theorem isSome_field?_withEnclosingField {link : EnclosingLink} {rest : List EnclosingLink}
    (h : c.enclosing = link :: rest) : (c.withEnclosingField.field? link.field).isSome = true := by
  rw [withEnclosingField, h]
  dsimp only
  split
  · assumption
  · simp [field?, fields, insertAt, Member.field?, Field.ofName]

theorem withEnclosingField_of_declared
    (h : ∀ link rest, c.enclosing = link :: rest → (c.field? link.field).isSome = true) :
    c.withEnclosingField = c := by
  unfold withEnclosingField
  split
  · rfl
  · rename_i link rest he
    rw [if_pos (h link rest he)]

end Names

section Normalized

variable (o : Options) {P Q : Member → Prop}

theorem isInterface_normalized : (c.normalized o).isInterface = c.isInterface :=
  eq_of_header isInterface (fun _ => rfl) (header_normalized o c)

theorem enclosing_normalized : (c.normalized o).enclosing = c.enclosing :=
  eq_of_header enclosing (fun _ => rfl) (header_normalized o c)

theorem unmoved_of_header {d : ClassDecl} (h : d.header = c.header) (side : Side) :
    d.unmoved side = c.unmoved side :=
  eq_of_header (unmoved · side) (fun _ => rfl) h

/-- What holds of fields without initializer, and of what stays of a member once its part of the
instance preamble is taken, holds of all declarations of a lowered class. -/
theorem forall_declarations_lowered (hc : c.isInterface = false)
    (hb : ∀ f : Field, f.initializer = none → Q (.field f))
    (hu : ∀ m m', c.unmoved .ofInstance m = some m' → P m → Q m')
    (h : ∀ m ∈ c.declarations, P m) : ∀ m ∈ (c.lowered o).declarations, Q m := by
  intro m hm
  rw [lowered_eq o hc] at hm
  obtain ⟨f, rfl, hf⟩ | hm := mem_declarations_withEnclosingField hm
  · exact hb f hf
  · have hd := declarations_withLowered (c.loweringContext o) (c.withoutPreamble .ofInstance)
    have hm' : m ∈ (c.withoutPreamble .ofInstance).declarations := hd ▸ hm
    rw [declarations_withoutPreamble] at hm'
    obtain ⟨m₀, hm₀, he⟩ := List.mem_filterMap.mp hm'
    exact hu m₀ m he (h m₀ hm₀)

theorem forall_declarations_withClassSetup
    (hu : ∀ m m', c.unmoved .ofClass m = some m' → P m → Q m')
    (h : ∀ m ∈ c.declarations, P m) : ∀ m ∈ (c.withClassSetup o).declarations, Q m := by
  intro m hm
  rw [declarations_withClassSetup] at hm
  obtain ⟨m₀, hm₀, he⟩ := List.mem_filterMap.mp hm
  exact hu m₀ m he (h m₀ hm₀)

theorem declarations_normalized :
    (c.normalized o).declarations =
      (((c.withRoles o).lowered o).withClassSetup o).declarations :=
  declarations_withRespelling o

theorem preamble_ofClass_normalized : (c.normalized o).preamble .ofClass = [] := by
  have hh : (c.normalized o).header = ((c.withRoles o).lowered o).header := by simp
  rw [preamble_eq_declarations, moved_of_header hh, declarations_normalized,
    List.filterMap_eq_nil_iff]
  exact forall_declarations_withClassSetup (P := fun _ => True) o
    (fun m m' hm _ => moved_of_unmoved hm) (fun _ _ => trivial)

theorem preamble_ofInstance_normalized (h : c.isInterface = false) :
    (c.normalized o).preamble .ofInstance = [] := by
  have hc : (c.withRoles o).isInterface = false := (isInterface_withRoles o c).trans h
  have hh : (c.normalized o).header = (c.withRoles o).header := by simp
  have hl : ((c.withRoles o).lowered o).header = (c.withRoles o).header := by simp
  have hlowered : ∀ m ∈ ((c.withRoles o).lowered o).declarations,
      (c.withRoles o).moved .ofInstance m = none :=
    forall_declarations_lowered (P := fun _ => True) o hc
      (fun f hf => by simp [moved, Field.stays, hf]) (fun m m' hm _ => moved_of_unmoved hm)
      (fun _ _ => trivial)
  -- The static phase only takes more away.
  rw [preamble_eq_declarations, moved_of_header hh, declarations_normalized,
    List.filterMap_eq_nil_iff]
  refine forall_declarations_withClassSetup o (fun m m' hu hm => ?_) hlowered
  rw [unmoved_of_header hl] at hu
  exact moved_unmoved_of_moved hm hu

/-- What holds of fields without initializer and is kept when a preamble is taken holds of all
declarations of a normalized class. -/
theorem forall_declarations_normalized (hb : ∀ f : Field, f.initializer = none → P (.field f))
    (hu : ∀ side m m', c.unmoved side m = some m' → P m → P m')
    (h : ∀ m ∈ c.declarations, P m) : ∀ m ∈ (c.normalized o).declarations, P m := by
  have hroles : ∀ m ∈ (c.withRoles o).declarations, P m := by
    rw [declarations_withRoles]
    exact h
  have hlowered : ∀ m ∈ ((c.withRoles o).lowered o).declarations, P m := by
    cases hc : (c.withRoles o).isInterface with
    | true =>
      rw [lowered_of_interface o hc]
      exact hroles
    | false =>
      refine forall_declarations_lowered o hc hb (fun m m' hm => ?_) hroles
      rw [unmoved_of_header (header_withRoles o c)] at hm
      exact hu _ m m' hm
  rw [declarations_normalized]
  refine forall_declarations_withClassSetup o (fun m m' hm => ?_) hlowered
  rw [unmoved_of_header (d := (c.withRoles o).lowered o) (c := c) (by simp)] at hm
  exact hu _ m m' hm

theorem checkScope_of_unmoved {side : Side} {m m' : Member} (hu : c.unmoved side m = some m')
    (h : c.checkScope m = .ok ()) : c.checkScope m' = .ok () := by
  obtain rfl | ⟨f, rfl, rfl⟩ := unmoved_cases hu
  · exact h
  · rfl

theorem checkScope_of_header {d : ClassDecl} (h : d.header = c.header) :
    d.checkScope = c.checkScope :=
  eq_of_header checkScope (fun _ => rfl) h

theorem scopeFault?_eq_none_iff_declarations :
    c.scopeFault? = none ↔ ∀ m ∈ c.declarations, c.checkScope m = .ok () := by
  rw [scopeFault?_eq_none_iff]
  constructor
  · intro h m hm
    exact h m (mem_declarations hm).1
  · intro h m hm
    cases m with
    | field f => exact h _ (List.mem_filterMap.mpr ⟨_, hm, rfl⟩)
    | block b => exact h _ (List.mem_filterMap.mpr ⟨_, hm, rfl⟩)
    | constructor k => rfl
    | method f => rfl

/-- What stays declared reads nothing that was not in scope before. -/
theorem scopeFault?_normalized (h : c.scopeFault? = none) :
    (c.normalized o).scopeFault? = none := by
  rw [scopeFault?_eq_none_iff_declarations] at h ⊢
  rw [checkScope_of_header (header_normalized o c)]
  refine forall_declarations_normalized o (fun f hf => ?_) (fun _ _ _ hu => ?_) h
  · simp [checkScope, hf]
    rfl
  · exact checkScope_of_unmoved hu

theorem isSome_field?_normalized (h : c.isInterface = false) {link : EnclosingLink}
    {rest : List EnclosingLink} (he : c.enclosing = link :: rest) :
    ((c.normalized o).field? link.field).isSome = true := by
  have hc : (c.withRoles o).isInterface = false := (isInterface_withRoles o c).trans h
  have hlowered : (((c.withRoles o).lowered o).field? link.field).isSome = true := by
    have hroles : (c.withRoles o).enclosing = c.enclosing :=
      eq_of_header enclosing (fun _ => rfl) (header_withRoles o c)
    rw [lowered_eq o hc]
    exact isSome_field?_withEnclosingField (hroles.trans he)
  have hd : (c.normalized o).declarations =
      (((c.withRoles o).lowered o).withoutPreamble .ofClass).declarations := by
    rw [declarations_normalized, declarations_withClassSetup, declarations_withoutPreamble]
  rw [isSome_field?_congr (c := (c.withRoles o).lowered o), hlowered]
  rw [fields_congr hd, map_name_fields_withoutPreamble]

end Normalized

end ClassDecl

end ExplicitInit
