import ExplicitInit.Proofs.Lists
import ExplicitInit.Proofs.Setup
import Mathlib.Data.List.TakeWhile

namespace ExplicitInit

def Constructor.frame (k : Constructor) : Constructor :=
  { k with
    params := []
    body := { k.body with statements := [] }
    role := none
    preambleLength := none }

def Method.frame (m : Method) : Method :=
  { m with body := { m.body with statements := [] } }

/-- How a member that stays may change; the parameter is the one for the enclosing instance. -/
inductive Member.KeptAs (p? : Option Param) : Member → Member → Prop
  | field {f f' : Field} (h : f' = f ∨ f' = { f with initializer := none }) :
      KeptAs p? (.field f) (.field f')
  | block (b : InitBlock) : KeptAs p? (.block b) (.block b)
  | constructor {k k' : Constructor} (hf : k'.frame = k.frame)
      (hp : k'.params = k.params ∨ ∃ p, p? = some p ∧ k'.params = p :: k.params) :
      KeptAs p? (.constructor k) (.constructor k')
  | method {m : Method} (hm : m.kind = .ordinary) : KeptAs p? (.method m) (.method m)
  | setup {m m' : Method} (hm : m.kind = .classSetup) (hf : m'.frame = m.frame) :
      KeptAs p? (.method m) (.method m')

/-- A block goes as a whole when its statements move; in an interface only those of the class do. -/
def Member.isConsumed (c : ClassDecl) : Member → Bool
  | .block b => !c.isInterface || b.isStatic
  | .field _ | .constructor _ | .method _ => false

def Member.isMethod : Member → Bool
  | .method _ => true
  | .field _ | .block _ | .constructor _ => false

namespace Member.KeptAs

variable {p? : Option Param} {m m' : Member}

theorem kind_eq {f f' : Method} (hm : f.kind = .classSetup) (hf : f'.frame = f.frame) :
    f'.kind = .classSetup :=
  (congrArg Method.kind hf).trans hm

theorem sameMethod (f : Method) : KeptAs p? (.method f) (.method f) := by
  cases hf : f.kind with
  | ordinary => exact .method hf
  | classSetup => exact .setup hf rfl

theorem reframed {k k' : Constructor} (h : KeptAs p? m (.constructor k))
    (hf : k'.frame = k.frame) (hp : k'.params = k.params) :
    KeptAs p? m (.constructor k') := by
  cases h with
  | constructor hf₀ hp₀ => exact .constructor (hf.trans hf₀) (by rwa [hp])

theorem lower (x : LoweringContext) (k : Constructor) (role : Role) :
    KeptAs x.enclosingParam (.constructor k) (.constructor (k.lower x role)) := by
  have hsame : KeptAs x.enclosingParam (.constructor k) (.constructor k) :=
    .constructor rfl (.inl rfl)
  have hparam : KeptAs x.enclosingParam (.constructor k)
      (.constructor (k.withEnclosingParam x.enclosingParam)) := by
    unfold Constructor.withEnclosingParam
    split
    · exact hsame
    · rename_i p hp
      split
      · exact hsame
      · exact .constructor rfl (.inr ⟨p, hp, rfl⟩)
  unfold Constructor.lower
  split
  · cases role with
    | designated =>
      refine hsame.reframed ?_ ?_ <;> (dsimp only; unfold Constructor.extendPreamble; split <;> rfl)
    | delegating => exact hsame
  · cases role with
    | designated => exact hparam.reframed rfl rfl
    | delegating =>
      refine hparam.reframed ?_ ?_ <;> (dsimp only; unfold Constructor.delegatingForm; split <;> rfl)

theorem adjusted (w : Rewriter Id) [w.KeepsForm] (h : KeptAs p? m m') :
    KeptAs p? m (m'.adjusted w) := by
  have hb : ∀ b : Block, (w.mapBlock b).span = b.span := by
    intro b
    rw [Rewriter.mapBlock_eq]
  cases h with
  | field h => exact .field h
  | block b => exact .block b
  | @constructor k k' hf hp =>
    have ha : (k'.adjusted w).frame = k'.frame := by
      simp [Constructor.frame, Constructor.adjusted, hb]
    exact .constructor (ha.trans hf) hp
  | method hm =>
    rw [Member.adjusted, if_neg (by simp [hm])]
    exact .method hm
  | @setup f f' hm hf =>
    have ha : (f'.adjusted w).frame = f'.frame := by
      simp [Method.frame, Method.adjusted, hb]
    rw [Member.adjusted, if_pos (kind_eq hm hf)]
    exact .setup hm (ha.trans hf)

end Member.KeptAs

section Reading

variable {β : Type} {f : Member → Option β}

theorem filterMap_of_keptAs {p? : Option Param} {ms ms' : List Member}
    (hf : ∀ {m m' : Member}, m.KeptAs p? m' → f m' = f m)
    (h : List.Forall₂ (Member.KeptAs p?) ms ms') : ms'.filterMap f = ms.filterMap f := by
  induction h with
  | nil => rfl
  | cons hm _ ih => rw [List.filterMap_cons, List.filterMap_cons, hf hm, ih]

theorem filterMap_filter_isConsumed {c : ClassDecl} (hf : ∀ b, f (.block b) = none)
    (ms : List Member) : (ms.filter (!·.isConsumed c)).filterMap f = ms.filterMap f := by
  rw [List.filterMap_filter]
  congr 1
  funext m
  cases m with
  | block b => simp [hf]
  | _ => rfl

end Reading

theorem keptAs_intoSetup? {p? : Option Param} {type : TypeRef} {added : List Stmt}
    {ls ms ms' : List Member} (h : List.Forall₂ (Member.KeptAs p?) ls ms)
    (hs : intoSetup? type added ms = some ms') : List.Forall₂ (Member.KeptAs p?) ls ms' := by
  induction h generalizing ms' with
  | nil => cases hs
  | @cons l m ls ms hlm hrest ih =>
    have skip (h : (intoSetup? type added ms).map (m :: ·) = some ms') :
        List.Forall₂ (Member.KeptAs p?) (l :: ls) ms' := by
      obtain ⟨later, hl, rfl⟩ := Option.map_eq_some_iff.mp h
      exact .cons hlm (ih hl)
    cases hlm with
    | setup hm hf =>
      rw [intoSetup?, if_pos (Member.KeptAs.kind_eq hm hf)] at hs
      cases Option.some.inj hs
      exact .cons (.setup hm hf) hrest
    | method hm =>
      rw [intoSetup?, if_neg (by simp [hm])] at hs
      exact skip hs
    | field h => exact skip hs
    | block b => exact skip hs
    | constructor hf hp => exact skip hs

namespace ClassDecl

def lasting (c : ClassDecl) : List Member :=
  c.members.filter (!·.isConsumed c)

def addedField (c : ClassDecl) : List Member :=
  match c.enclosing with
  | [] => []
  | link :: _ =>
    if c.isInterface || (c.field? link.field).isSome then []
    else [.field { Field.ofName link.field (enclosingPointer link) with isSynthetic := true }]

def addedConstructor (o : Options) (c : ClassDecl) : List Member :=
  if c.lacksConstructor then
    [.constructor (c.normalConstructor o (.implicit o.defaultSelector))]
  else []

def addedSetup (o : Options) (c : ClassDecl) : List Member :=
  if c.preamble .ofClass = [] ∨ c.setups ≠ [] then []
  else [.method ((c.newSetup o (c.preamble .ofClass)).adjusted o.adjuster)]

/-- What is left of a member once both preambles are taken. -/
def retained (o : Options) (c : ClassDecl) (m : Member) : Option Member :=
  if c.isInterface then c.unmoved .ofClass m
  else
    ((c.unmoved .ofInstance m.classified).map (Member.lowered (c.loweringContext o))).bind
      (c.unmoved .ofClass)

variable {c : ClassDecl}

theorem unmoved_field (side : Side) (f : Field) :
    ∃ f', c.unmoved side (.field f) = some (.field f') ∧
      (f' = f ∨ f' = { f with initializer := none }) := by
  unfold unmoved
  dsimp only
  split
  · exact ⟨_, rfl, .inr rfl⟩
  · exact ⟨_, rfl, .inl rfl⟩

theorem exists_retained (o : Options) {m : Member} (hm : m.isConsumed c = false) :
    ∃ m', c.retained o m = some m' ∧ m.KeptAs c.enclosingParam? m' := by
  cases hc : c.isInterface with
  | true =>
    simp only [retained, hc, if_true]
    cases m with
    | field f =>
      obtain ⟨f', hu, hf⟩ := unmoved_field (c := c) .ofClass f
      exact ⟨_, hu, .field hf⟩
    | block b =>
      have hs : b.isStatic = false := by simpa [Member.isConsumed, hc] using hm
      exact ⟨.block b, by simp [unmoved, InitBlock.side, hs], .block b⟩
    | constructor k => exact ⟨_, rfl, .constructor rfl (.inl rfl)⟩
    | method f => exact ⟨_, rfl, .sameMethod f⟩
  | false =>
    simp only [retained, hc, Bool.false_eq_true, if_false]
    cases m with
    | field f =>
      obtain ⟨f', hi, hf⟩ := unmoved_field (c := c) .ofInstance f
      obtain ⟨f'', hu, hf'⟩ := unmoved_field (c := c) .ofClass f'
      refine ⟨.field f'', ?_, .field ?_⟩
      · simp [Member.classified, hi, Member.lowered, hu]
      · obtain rfl | rfl := hf <;> obtain rfl | rfl := hf' <;> simp
    | block b => simp [Member.isConsumed, hc] at hm
    | constructor k =>
      cases Member.KeptAs.lower (c.loweringContext o) k.classified k.classified.roleByBody with
      | constructor hf hp => exact ⟨_, rfl, .constructor hf hp⟩
    | method f => exact ⟨_, rfl, .sameMethod f⟩

theorem retained_eq_none (o : Options) {m : Member} (hm : m.isConsumed c = true) :
    c.retained o m = none := by
  cases m with
  | block b =>
    cases hc : c.isInterface with
    | true =>
      have hs : b.isStatic = true := by simpa [Member.isConsumed, hc] using hm
      simp [retained, hc, unmoved, InitBlock.side, hs]
    | false =>
      cases hs : b.isStatic <;>
        simp [retained, hc, unmoved, Member.classified, Member.lowered, InitBlock.side, hs]
  | field f => cases hm
  | constructor k => cases hm
  | method f => cases hm

section

variable (o : Options) (c)

def retainedMembers : List Member :=
  (c.withImplicitConstructor o).members.filterMap (c.retained o)

variable {c}

theorem members_withEnclosingField {d : ClassDecl} (h : c.isInterface = false)
    (hn : d.fields.map Field.name = c.fields.map Field.name) (he : d.enclosing = c.enclosing) :
    d.withEnclosingField.members = c.addedField ++ d.members := by
  unfold withEnclosingField addedField
  rw [he]
  cases c.enclosing with
  | nil => rfl
  | cons link rest =>
    dsimp only
    rw [isSome_field?_congr hn, h, Bool.false_or]
    split <;> rfl

theorem fields_withRoles : (c.withRoles o).fields = c.fields :=
  filterMap_withRoles o c fun _ => rfl

variable (c)

theorem addedField_cases :
    c.addedField = [] ∨ ∃ f : Field, f.initializer = none ∧ c.addedField = [.field f] := by
  unfold addedField
  cases c.enclosing with
  | nil => exact .inl rfl
  | cons link rest =>
    dsimp only
    split
    · exact .inl rfl
    · exact .inr ⟨_, rfl, rfl⟩

theorem unmoved_addedField (side : Side) :
    c.addedField.filterMap (c.unmoved side) = c.addedField := by
  obtain h | ⟨f, hf, h⟩ := addedField_cases c
  · rw [h, List.filterMap_nil]
  · simp [h, unmoved, Field.stays, hf]

theorem setups_addedField : c.addedField.filterMap Member.classSetup? = [] := by
  obtain h | ⟨f, _, h⟩ := addedField_cases c <;> rw [h] <;> rfl

theorem map_adjusted_addedField :
    c.addedField.map (Member.adjusted o.adjuster) = c.addedField := by
  obtain h | ⟨f, _, h⟩ := addedField_cases c <;> rw [h] <;> rfl

theorem intoSetup?_addedField (type : TypeRef) (added : List Stmt) (ms : List Member) :
    intoSetup? type added (c.addedField ++ ms) =
      (intoSetup? type added ms).map (c.addedField ++ ·) := by
  obtain h | ⟨f, _, h⟩ := addedField_cases c
  · simp [h]
  · simp [h, intoSetup?]

theorem members_lowered (h : c.isInterface = false) :
    ((c.withRoles o).lowered o).members =
      c.addedField ++ (c.withImplicitConstructor o).members.filterMap fun m =>
        (c.unmoved .ofInstance m.classified).map (Member.lowered (c.loweringContext o)) := by
  have hr : (c.withRoles o).isInterface = false := (isInterface_withRoles o c).trans h
  have hx : (c.withRoles o).loweringContext o = c.loweringContext o :=
    loweringContext_congr o (header_withRoles o c) (preamble_withRoles o c .ofInstance)
  have hm : (c.withRoles o).members =
      (c.withImplicitConstructor o).members.map Member.classified := by
    simp [withRoles, h]
  have he : (c.withRoles o).enclosing = c.enclosing :=
    eq_of_header enclosing (fun _ => rfl) (header_withRoles o c)
  have hu : (c.withRoles o).unmoved .ofInstance = c.unmoved .ofInstance :=
    unmoved_of_header (header_withRoles o c) .ofInstance
  have hn : { c.withRoles o with
        members := ((c.withRoles o).withoutPreamble .ofInstance).members.map
          (Member.lowered (c.loweringContext o)) }.fields.map Field.name =
      c.fields.map Field.name := by
    rw [← fields_withRoles o (c := c),
      ← map_name_fields_withoutPreamble (c := c.withRoles o) .ofInstance]
    exact congrArg (List.map Field.name)
      (filterMap_map_lowered (fun _ => rfl) (c.loweringContext o) _)
  rw [lowered_eq o hr, hx]
  refine (members_withEnclosingField h hn he).trans (congrArg (c.addedField ++ ·) ?_)
  dsimp only [withoutPreamble]
  rw [hu, hm, List.filterMap_map, List.map_filterMap]
  rfl

theorem members_lowered_withoutPreamble :
    (((c.withRoles o).lowered o).withoutPreamble .ofClass).members =
      c.addedField ++ c.retainedMembers o := by
  have hu : ((c.withRoles o).lowered o).unmoved .ofClass = c.unmoved .ofClass :=
    unmoved_of_header (by simp) .ofClass
  rw [withoutPreamble, hu]
  dsimp only
  cases h : c.isInterface with
  | true =>
    have hi : c.withImplicitConstructor o = c := by
      simp [withImplicitConstructor, lacksConstructor, h]
    have ha : c.addedField = [] := by
      unfold addedField
      cases c.enclosing <;> simp [h]
    have hf : c.retained o = c.unmoved .ofClass := funext fun m => by simp [retained, h]
    rw [withRoles_of_interface o c h, lowered_of_interface o h, retainedMembers, hi, ha, hf]
    rfl
  | false =>
    rw [members_lowered c o h, List.filterMap_append, unmoved_addedField,
      List.filterMap_filterMap, retainedMembers]
    congr 2
    funext m
    simp [retained, h]

theorem keptAs_retainedMembers :
    List.Forall₂ (Member.KeptAs c.enclosingParam?)
      ((c.withImplicitConstructor o).members.filter (!·.isConsumed c)) (c.retainedMembers o) := by
  refine forall₂_filter_filterMap (fun m _ hm => ?_) fun m _ hm => ?_
  · exact exists_retained o (by simpa using hm)
  · exact retained_eq_none o (by simpa using hm)

theorem members_initialized :
    ∃ rest added, (c.initialized o).members = c.addedField ++ rest ++ added ∧
      added.map (Member.adjusted o.adjuster) = c.addedSetup o ∧
      List.Forall₂ (Member.KeptAs c.enclosingParam?)
        ((c.withImplicitConstructor o).members.filter (!·.isConsumed c)) rest := by
  have hkept := keptAs_retainedMembers c o
  have hmembers := members_lowered_withoutPreamble c o
  have hheader : ((c.withRoles o).lowered o).header = c.header := by simp
  have htype : ((c.withRoles o).lowered o).type = c.type :=
    eq_of_header ClassDecl.type (fun _ => rfl) hheader
  have hnew : ((c.withRoles o).lowered o).newSetup o = c.newSetup o :=
    eq_of_header (newSetup o) (fun _ => rfl) hheader
  have hpreamble : ((c.withRoles o).lowered o).preamble .ofClass = c.preamble .ofClass := by
    rw [preamble_ofClass_lowered, preamble_withRoles]
  have hretained : (c.retainedMembers o).filterMap Member.classSetup? = c.setups := by
    rw [← setups_withRoles o c, ← setups_lowered o, ← setups_withoutPreamble _ .ofClass, setups,
      hmembers, List.filterMap_append, setups_addedField]
    rfl
  unfold initialized withClassSetup addedSetup
  dsimp only
  rw [hpreamble, htype, hmembers]
  by_cases hp : c.preamble .ofClass = []
  · have hbare := withoutPreamble_of_preamble (hpreamble.trans hp)
    rw [hbare] at hmembers
    refine ⟨_, [], ?_, ?_, hkept⟩
    · simp [hp, hmembers]
    · simp [hp]
  · rw [if_neg (by simpa using hp), intoSetup?_addedField]
    cases hs : intoSetup? c.type (c.preamble .ofClass) (c.retainedMembers o) with
    | some rest =>
      obtain ⟨m, later, hm, _⟩ := setups_intoSetup? hs
      have hne : c.setups ≠ [] := by
        rw [← hretained, hm]
        exact List.cons_ne_nil m later
      refine ⟨rest, [], ?_, ?_, keptAs_intoSetup? hkept hs⟩
      · simp
      · simp [hne]
    | none =>
      have hnil : c.setups = [] :=
        hretained.symm.trans (filterMap_classSetup?_eq_nil (intoSetup?_eq_none_iff.mp hs))
      refine ⟨_, [.method (c.newSetup o (c.preamble .ofClass))], ?_, ?_, hkept⟩
      · simp [hmembers, hnew]
      · simp [hp, hnil, Member.adjusted, newSetup, Method.classSetup]

theorem members_normalized :
    ∃ rest, (c.normalized o).members = c.addedField ++ rest ++ c.addedSetup o ∧
      List.Forall₂ (Member.KeptAs c.enclosingParam?)
        ((c.withImplicitConstructor o).members.filter (!·.isConsumed c)) rest := by
  obtain ⟨rest, added, hinit, hadded, hkept⟩ := members_initialized c o
  refine ⟨rest.map (Member.adjusted o.adjuster), ?_,
    List.forall₂_map_right_iff.mpr (hkept.imp fun _ _ hm => hm.adjusted o.adjuster)⟩
  rw [normalized, withRespelling_eq]
  dsimp only
  rw [hinit, List.map_append, List.map_append, map_adjusted_addedField, hadded]

theorem exists_implicitPosition :
    ∃ before after, c.members = before ++ after ∧
      (c.withImplicitConstructor o).members =
        before ++ (if c.lacksConstructor then
          [.constructor (.implicit o.defaultSelector)] else []) ++ after ∧
      (c.lacksConstructor = true → (∀ m ∈ before, m.isMethod = false) ∧
        ∀ m ∈ after.head?, m.isMethod = true) := by
  by_cases hl : c.lacksConstructor = true
  · have hk : ∀ m ∈ c.members, m.constructor? = none :=
      List.filterMap_eq_nil_iff.mp (List.isEmpty_iff.mp (Bool.and_eq_true_iff.mp hl).2)
    obtain ⟨p, hpos, hp⟩ : ∃ p : Member → Bool,
        c.implicitPosition = (c.members.takeWhile p).length ∧
          ∀ m, p m = true ↔ m.isMethod = false ∧ m.constructor? = none := by
      refine ⟨_, rfl, fun m => ?_⟩
      cases m <;> simp [Member.isMethod, Member.constructor?]
    have hsplit := List.takeWhile_append_dropWhile (p := p) (l := c.members)
    refine ⟨c.members.takeWhile p, c.members.dropWhile p, hsplit.symm, ?_, fun _ => ⟨?_, ?_⟩⟩
    · have ht : c.members.take c.implicitPosition = c.members.takeWhile p := by
        rw [hpos]
        nth_rewrite 2 [← hsplit]
        exact List.take_left
      have hd : c.members.drop c.implicitPosition = c.members.dropWhile p := by
        rw [hpos]
        nth_rewrite 2 [← hsplit]
        exact List.drop_left
      simp [withImplicitConstructor, hl, insertAt, ht, hd]
    · intro m hm
      exact ((hp m).mp (List.mem_takeWhile_imp hm)).1
    · intro m hm
      rw [← List.find?_not_eq_head?_dropWhile] at hm
      have hn : ¬ p m = true := by simpa using List.find?_some hm
      have hmem : m ∈ c.members := List.mem_of_find?_eq_some hm
      cases hmethod : m.isMethod with
      | true => rfl
      | false => exact (hn ((hp m).mpr ⟨hmethod, hk m hmem⟩)).elim
  · exact ⟨c.members, [], by simp, by simp [withImplicitConstructor, hl], fun h => (hl h).elim⟩

theorem eq_addedConstructor {ms : List Member}
    (hk : List.Forall₂ (Member.KeptAs c.enclosingParam?)
      (if c.lacksConstructor then [.constructor (.implicit o.defaultSelector)] else []) ms)
    (hm : ∀ m ∈ ms, m ∈ (c.normalized o).members) : ms = c.addedConstructor o := by
  unfold addedConstructor
  split
  · rename_i hl
    rw [if_pos hl] at hk
    obtain ⟨m, _, hkept, hnil, rfl⟩ := List.forall₂_cons_left_iff.mp hk
    cases hnil
    cases hkept with
    | @constructor _ k' hf hp =>
      have hmem : k' ∈ (c.normalized o).constructors :=
        List.mem_filterMap.mpr ⟨_, hm _ List.mem_cons_self, rfl⟩
      obtain ⟨hi, hnone⟩ := Bool.and_eq_true_iff.mp hl
      have hc : c.isInterface = false := by simpa using hi
      rw [constructors_normalized o hc, constructors_withImplicitConstructor o hc,
        if_pos (List.isEmpty_iff.mp hnone)] at hmem
      rw [List.mem_singleton.mp hmem]
  · rename_i hl
    rw [if_neg hl] at hk
    exact List.forall₂_nil_left_iff.mp hk

end

/-- How normalization of a class keeps its members. -/
structure KeepsMembers (o : Options) (c c' : ClassDecl) (s : Summary) : Prop where
  header : c'.header = c.header
  reported : s.constructorAdded = c.lacksConstructor
  members : ∃ before after before' after', c.lasting = before ++ after ∧
    c'.members =
      c.addedField ++ before' ++ c.addedConstructor o ++ after' ++ c.addedSetup o ∧
    List.Forall₂ (Member.KeptAs c.enclosingParam?) before before' ∧
    List.Forall₂ (Member.KeptAs c.enclosingParam?) after after' ∧
    (c.lacksConstructor = true → (∀ m ∈ before, m.isMethod = false) ∧
      ∀ m ∈ after.head?, m.isMethod = true)
  laterSetups : c'.setups.tail = c.setups.tail.map (Method.adjusted o.adjuster)

/-- A method is never consumed, so the members that stay after a place start with one if those
after it do. -/
theorem head?_filter_isConsumed {ms : List Member} (h : ∀ m ∈ ms.head?, m.isMethod = true) :
    ∀ m ∈ (ms.filter (!·.isConsumed c)).head?, m.isMethod = true := by
  cases ms with
  | nil => exact h
  | cons m ms =>
    have hm : m.isMethod = true := h m rfl
    have hc : m.isConsumed c = false := by
      cases m <;> simp_all [Member.isMethod, Member.isConsumed]
    rw [List.filter_cons_of_pos (by simp [hc])]
    exact h

/-- Normalization deletes, reorders and rewrites nothing that it does not own. -/
theorem normalize_keepsMembers {o : Options} {c' : ClassDecl} {s : Summary}
    (h : c.normalize o = .ok (c', s)) : c.KeepsMembers o c' s := by
  obtain ⟨_, rfl, rfl⟩ := normalize_eq_ok_iff.mp h
  obtain ⟨rest, hmembers, hrest⟩ := members_normalized c o
  obtain ⟨before, after, hsplit, hfull, hplace⟩ := exists_implicitPosition c o
  have hlone : (if c.lacksConstructor then
        [Member.constructor (.implicit o.defaultSelector)] else []).filter (!·.isConsumed c) =
      if c.lacksConstructor then [.constructor (.implicit o.defaultSelector)] else [] := by
    split <;> rfl
  rw [hfull, List.filter_append, List.filter_append, hlone] at hrest
  obtain ⟨front, after', hfront, hlead, hafter⟩ := exists_append_of_forall₂ hrest
  obtain ⟨before', middle, rfl, hbefore, hmiddle⟩ := exists_append_of_forall₂ hlead
  have hone : middle = c.addedConstructor o := by
    refine eq_addedConstructor c o hmiddle fun m hm => ?_
    rw [hmembers, hfront]
    simp [hm]
  subst hone
  refine ⟨header_normalized o c, rfl, ?_, ?_⟩
  · refine ⟨_, _, before', after', ?_, ?_, hbefore, hafter, fun hl => ⟨fun m hm => ?_, ?_⟩⟩
    · rw [lasting, hsplit, List.filter_append]
    · rw [hmembers, hfront]
      simp
    · exact (hplace hl).1 m (List.mem_of_mem_filter hm)
    · exact head?_filter_isConsumed (hplace hl).2
  · rw [setups_normalized]
    cases hw : c.setupWith o (c.preamble .ofClass) c.setup? with
    | some m => rfl
    | none =>
      have hn : c.setups = [] := List.head?_eq_none_iff.mp (setupWith_eq_none hw)
      rw [hn]
      rfl

def drawer : ClassDecl where
  type := ⟨⟨1⟩, "Drawer"⟩
  kind := .ordinary
  superclass := none
  enclosing := [.to ⟨⟨2⟩, "Desk"⟩]
  members := [
    .field ⟨"depth", "int", false, false, some (.int 3 .synthetic), false, .synthetic⟩,
    .block (.ofInstance [.ofExpr (.ofText "sanded")]),
    .block (.ofClass [.ofExpr (.ofText "measured")]),
    .method (.ofBody "open" "void" [] [.ofExpr (.ofText "slide")]),
    .field (.ofName "label" "String")]
  span := .synthetic

theorem normalize_keepsMembers_drawer :
    ∃ c' s, drawer.normalize .standard = .ok (c', s) ∧
      drawer.KeepsMembers .standard c' s := by
  have h : drawer.normalize .standard =
      .ok (drawer.normalized .standard, drawer.changes .standard) :=
    normalize_eq_ok_iff.mpr ⟨by decide +kernel, rfl, rfl⟩
  exact ⟨_, _, h, normalize_keepsMembers h⟩

end ClassDecl

end ExplicitInit
