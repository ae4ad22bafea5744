import ExplicitInit.Proofs.PhaseOrder
import ExplicitInit.Proofs.TypeChanges

namespace ExplicitInit

namespace Constructor

def gainsParam (k : Constructor) : Bool :=
  !k.isLowered && k.enclosingParam?.isNone

/-- The constructor with a text for the type of the parameter that its source form did not have. -/
def withPointer (text? : Option String) (k source : Constructor) : Constructor :=
  match text? with
  | none => k
  | some text =>
    if source.gainsParam then { k with params := k.params.modifyHead ({ · with type := text }) }
    else k

end Constructor

def pointParams (text? : Option String) : List Constructor → List Member → List Member
  | source :: sources, .constructor k :: ms =>
    .constructor (k.withPointer text? source) :: pointParams text? sources ms
  | sources, m :: ms => m :: pointParams text? sources ms
  | _, [] => []

def Member.retyped (text? : Option String) : Member → Member
  | .field f => .field { f with type := text?.getD f.type }
  | m => m

namespace ClassDecl

def pointer? (c : ClassDecl) : Option String :=
  if c.isInterface then none else c.enclosing.head?.map enclosingPointer

def pointField (c : ClassDecl) (text? : Option String) (ms : List Member) : List Member :=
  if c.addedField.isEmpty then ms else ms.modifyHead (Member.retyped text?)

/-- The result of normalizing `c`, with a text for the type of the field and of the parameters that
were added for the enclosing instance. -/
def withPointers (o : Options) (c : ClassDecl) (text? : Option String) (result : ClassDecl) :
    ClassDecl :=
  { result with
    members :=
      pointParams text? (c.withImplicitConstructor o).constructors
        (c.pointField text? result.members) }

end ClassDecl

section Constructors

variable {text? : Option String}

theorem withPointer_of_gainsParam {source : Constructor} (h : source.gainsParam = false)
    (k : Constructor) : k.withPointer text? source = k := by
  cases text? <;> simp [Constructor.withPointer, h]

theorem withPointer_congr {source other : Constructor} (h : source.gainsParam = other.gainsParam)
    (k : Constructor) : k.withPointer text? source = k.withPointer text? other := by
  unfold Constructor.withPointer
  rw [h]

theorem withPointer_comm {f : Constructor → Constructor}
    (hf : ∀ k params, f { k with params } = { f k with params }) (k source : Constructor) :
    f (k.withPointer text? source) = (f k).withPointer text? source := by
  have hsame : f k = { f k with params := k.params } := hf k k.params
  have hparams : (f k).params = k.params := by rw [hsame]
  cases text? with
  | none => rfl
  | some text =>
    cases hg : source.gainsParam with
    | false => rw [withPointer_of_gainsParam hg, withPointer_of_gainsParam hg]
    | true =>
      simp only [Constructor.withPointer, hg, if_true]
      rw [hparams]
      exact hf k _

@[simp] theorem body_withPointer (k source : Constructor) :
    (k.withPointer text? source).body = k.body := by
  cases text? with
  | none => rfl
  | some text => cases hg : source.gainsParam <;> simp [Constructor.withPointer, hg]

theorem withPointer_withPointer {old? : Option String} (h : old?.isSome = text?.isSome)
    (k source : Constructor) :
    (k.withPointer old? source).withPointer text? source = k.withPointer text? source := by
  cases hg : source.gainsParam with
  | false => rw [withPointer_of_gainsParam hg k]
  | true =>
    cases old? <;> cases text? <;> cases h
    · rfl
    · obtain ⟨selector, params, body, role, preambleLength, isSynthetic, span⟩ := k
      cases params <;> simp [Constructor.withPointer, hg]

def LoweringContext.withPointer (text? : Option String) (x : LoweringContext) : LoweringContext :=
  { x with enclosingParam := x.enclosingParam.map fun p => { p with type := text?.getD p.type } }

theorem forwarding_withPointer (i : Invocation) (p? : Option Param) :
    i.forwarding (p?.map fun p => { p with type := text?.getD p.type }) = i.forwarding p? := by
  cases p? <;> rfl

theorem withEnclosingParam_withPointer {p? : Option Param} (h : p?.isSome = text?.isSome)
    {k : Constructor} (hl : k.isLowered = false) :
    k.withEnclosingParam (p?.map fun p => { p with type := text?.getD p.type }) =
      (k.withEnclosingParam p?).withPointer text? k := by
  cases p? <;> cases text? <;> cases h
  · rfl
  · rename_i p text
    cases hp : k.enclosingParam?.isSome with
    | true =>
      have hg : k.gainsParam = false := by
        simp [Constructor.gainsParam, Option.isNone_eq_false_iff, hp]
      rw [withPointer_of_gainsParam hg]
      simp [Constructor.withEnclosingParam, hp]
    | false =>
      simp_all [Constructor.withEnclosingParam, Constructor.withPointer, Constructor.gainsParam]

/-- Lowering writes the type of the enclosing instance into the added parameter and nowhere else. -/
theorem lower_withPointer {x : LoweringContext} (h : x.enclosingParam.isSome = text?.isSome)
    (k : Constructor) (role : Role) :
    k.lower (x.withPointer text?) role = (k.lower x role).withPointer text? k := by
  by_cases hl : k.isLowered = true
  · have hg : k.gainsParam = false := by simp [Constructor.gainsParam, hl]
    rw [withPointer_of_gainsParam hg]
    simp [Constructor.lower, hl, LoweringContext.withPointer]
  · have hdelegating (k : Constructor) :
        k.delegatingForm (x.withPointer text?) = k.delegatingForm x := by
      simp [Constructor.delegatingForm, LoweringContext.withPointer, LoweringContext.hook,
        forwarding_withPointer]
    have hparam : k.withEnclosingParam (x.withPointer text?).enclosingParam =
        (k.withEnclosingParam x.enclosingParam).withPointer text? k :=
      withEnclosingParam_withPointer h (by simpa using hl)
    simp only [Constructor.lower, hl, Bool.false_eq_true, if_false]
    cases role with
    | designated =>
      dsimp only
      rw [hparam]
      exact withPointer_comm (f := (·.designatedForm x)) (fun _ _ => rfl) _ k
    | delegating =>
      dsimp only
      rw [hparam, hdelegating]
      refine withPointer_comm (f := (·.delegatingForm x)) (fun k params => ?_) _ k
      dsimp only [Constructor.delegatingForm]
      generalize splitInvocation k.body.statements = parts
      obtain ⟨_ | i, _ | ⟨s, rest⟩⟩ := parts <;> rfl

end Constructors

section Members

variable {text? : Option String}

@[simp] theorem pointParams_nil (sources : List Constructor) :
    pointParams text? sources [] = [] := by
  cases sources <;> rfl

@[simp] theorem pointParams_of_nil : pointParams text? [] = id := by
  funext ms
  induction ms with
  | nil => rfl
  | cons m ms ih => rw [pointParams, ih, id, id]; simp

@[simp] theorem pointParams_field (sources : List Constructor) (f : Field) (ms : List Member) :
    pointParams text? sources (.field f :: ms) = .field f :: pointParams text? sources ms := by
  cases sources <;> rfl

@[simp] theorem pointParams_block (sources : List Constructor) (b : InitBlock) (ms : List Member) :
    pointParams text? sources (.block b :: ms) = .block b :: pointParams text? sources ms := by
  cases sources <;> rfl

@[simp] theorem pointParams_method (sources : List Constructor) (f : Method) (ms : List Member) :
    pointParams text? sources (.method f :: ms) = .method f :: pointParams text? sources ms := by
  cases sources <;> rfl

@[simp] theorem pointParams_constructor (source k : Constructor) (sources : List Constructor)
    (ms : List Member) :
    pointParams text? (source :: sources) (.constructor k :: ms) =
      .constructor (k.withPointer text? source) :: pointParams text? sources ms := rfl

theorem pointParams_append_method (sources : List Constructor) (ms : List Member) (f : Method) :
    pointParams text? sources (ms ++ [.method f]) =
      pointParams text? sources ms ++ [.method f] := by
  induction ms generalizing sources with
  | nil => simp
  | cons m ms ih =>
    cases m with
    | constructor k =>
      cases sources with
      | nil => simp
      | cons source sources => simp [ih]
    | _ => simp [ih]

theorem intoSetup?_pointParams {type : TypeRef} {added : List Stmt} (sources : List Constructor)
    (ms : List Member) :
    intoSetup? type added (pointParams text? sources ms) =
      (intoSetup? type added ms).map (pointParams text? sources) := by
  induction ms generalizing sources with
  | nil => simp [intoSetup?]
  | cons m ms ih =>
    cases m with
    | constructor k =>
      cases sources with
      | nil => simp
      | cons source sources => simp [intoSetup?, ih, Function.comp_def]
    | method f =>
      by_cases hf : f.kind = .classSetup <;>
        simp [intoSetup?, hf, ih, Function.comp_def]
    | _ => simp [intoSetup?, ih, Function.comp_def]

theorem ClassDecl.settingUp_pointParams (o : Options) (c : ClassDecl) (statements : List Stmt)
    (sources : List Constructor) (ms : List Member) :
    c.settingUp o statements (pointParams text? sources ms) =
      pointParams text? sources (c.settingUp o statements ms) := by
  unfold ClassDecl.settingUp
  rw [intoSetup?_pointParams]
  cases intoSetup? c.type statements ms with
  | some later => rfl
  | none => exact (pointParams_append_method sources ms _).symm

theorem mapM_respelled_pointParams (sources : List Constructor) (ms : List Member) :
    (pointParams text? sources ms).mapM Member.respelled =
      pointParams text? sources <$> ms.mapM Member.respelled := by
  induction ms generalizing sources with
  | nil => simp
  | cons m ms ih =>
    cases m with
    | constructor k =>
      cases sources with
      | nil => simp
      | cons source sources =>
        have hform (b : Block) : { k.withPointer text? source with body := b } =
            { k with body := b }.withPointer text? source :=
          withPointer_comm (f := ({ · with body := b })) (fun _ _ => rfl) k source
        simp [Member.respelled, ih, hform]
    | method f =>
      by_cases hf : f.kind = .classSetup <;> simp [Member.respelled, hf, ih]
    | _ => simp [Member.respelled, ih]

theorem pointParams_filterMap {g h : Member → Option Member}
    (hconstructor : ∀ k, ∃ k', g (.constructor k) = some (.constructor k') ∧
      h (.constructor k) = some (.constructor (k'.withPointer text? k)))
    (hother : ∀ m, m.constructor? = none → h m = g m ∧ ∀ m' ∈ g m, m'.constructor? = none)
    (ms : List Member) :
    ms.filterMap h = pointParams text? (ms.filterMap Member.constructor?) (ms.filterMap g) := by
  induction ms with
  | nil => rfl
  | cons m ms ih =>
    cases hm : m.constructor? with
    | some k =>
      cases m <;> cases hm
      obtain ⟨k', hg, hh⟩ := hconstructor k
      rw [List.filterMap_cons_some hg, List.filterMap_cons_some hh, ih]
      rfl
    | none =>
      obtain ⟨he, hk⟩ := hother m hm
      cases hg : g m with
      | none => rw [List.filterMap_cons_none hg, List.filterMap_cons_none (he.trans hg),
          List.filterMap_cons_none hm, ih]
      | some m' =>
        rw [List.filterMap_cons_some hg, List.filterMap_cons_some (he.trans hg),
          List.filterMap_cons_none hm, ih]
        have hm' : m'.constructor? = none := hk m' hg
        cases m' with
        | constructor k => cases hm'
        | _ => simp

theorem changedEach_pointParams (g : TypeChange) (sources : List Constructor) (ms : List Member) :
    changedEach Member.changed g (pointParams text? sources ms) =
      pointParams text? sources (changedEach Member.changed g ms) := by
  induction ms generalizing sources g with
  | nil => simp [changedEach]
  | cons m ms ih =>
    cases m with
    | constructor k =>
      cases sources with
      | nil => simp
      | cons source sources =>
        have hk : (k.withPointer text? source).changed (g.below 0) =
            (k.changed (g.below 0)).withPointer text? source :=
          withPointer_comm (fun _ _ => rfl) k source
        simp [changedEach, Member.changed, ih, hk]
    | _ => simp [changedEach, Member.changed, ih]

theorem pointParams_map {f : Constructor → Constructor}
    (hf : ∀ k, (f k).gainsParam = k.gainsParam) (sources : List Constructor) (ms : List Member) :
    pointParams text? (sources.map f) ms = pointParams text? sources ms := by
  induction ms generalizing sources with
  | nil => simp
  | cons m ms ih =>
    cases m with
    | constructor k =>
      cases sources with
      | nil => rfl
      | cons source sources => simp [ih, withPointer_congr (hf source)]
    | _ => simp [ih]

theorem pointParams_pointParams {old? : Option String} (h : old?.isSome = text?.isSome)
    (sources : List Constructor) (ms : List Member) :
    pointParams text? sources (pointParams old? sources ms) = pointParams text? sources ms := by
  induction ms generalizing sources with
  | nil => simp
  | cons m ms ih =>
    cases m with
    | constructor k =>
      cases sources with
      | nil => simp
      | cons source sources => simp [ih, withPointer_withPointer h]
    | _ => simp [ih]

end Members

namespace ClassDecl

section Classes

variable {o : Options} {c : ClassDecl} {text? : Option String}

theorem pointField_pointParams {other? : Option String} (sources : List Constructor)
    (ms : List Member) :
    c.pointField text? (pointParams other? sources ms) =
      pointParams other? sources (c.pointField text? ms) := by
  unfold pointField
  split
  · rfl
  · cases ms with
    | nil => simp
    | cons m ms =>
      cases m with
      | constructor k =>
        cases sources with
        | nil => simp
        | cons source sources => rfl
      | _ => simp [Member.retyped]

theorem pointField_pointField {old? : Option String} (h : old?.isSome = text?.isSome)
    (ms : List Member) : c.pointField text? (c.pointField old? ms) = c.pointField text? ms := by
  unfold pointField
  split
  · rfl
  · cases ms with
    | nil => rfl
    | cons m ms => cases m <;> cases old? <;> cases text? <;> cases h <;> rfl

theorem changedEach_pointField (g : TypeChange) (ms : List Member) :
    changedEach Member.changed g (c.pointField text? ms) =
      c.pointField text? (changedEach Member.changed g ms) := by
  unfold pointField
  split
  · rfl
  · cases ms with
    | nil => rfl
    | cons m ms => cases m <;> rfl

theorem mapM_respelled_pointField (ms : List Member) :
    (c.pointField text? ms).mapM Member.respelled =
      c.pointField text? <$> ms.mapM Member.respelled := by
  unfold pointField
  split
  · simp
  · cases ms with
    | nil => simp
    | cons m ms =>
      cases m with
      | method f =>
        by_cases hf : f.kind = .classSetup <;> simp [Member.retyped, Member.respelled, hf]
      | _ => simp [Member.retyped, Member.respelled]

theorem changed_withPointers (g : TypeChange) (result : ClassDecl) :
    (c.withPointers o text? result).changed g = c.withPointers o text? (result.changed g) := by
  simp only [withPointers, changed, changedEach_pointParams, changedEach_pointField]

theorem withPointers_withPointers {old? : Option String} (h : old?.isSome = text?.isSome)
    (result : ClassDecl) :
    c.withPointers o text? (c.withPointers o old? result) = c.withPointers o text? result := by
  simp only [withPointers, pointField_pointParams, pointParams_pointParams h,
    pointField_pointField h]

theorem withRespelling_withPointers (result : ClassDecl) :
    (c.withPointers o text? result).withRespelling o =
      (result.withRespelling o).map (c.withPointers o text?) id := by
  unfold withRespelling
  split
  · have hmembers : (c.withPointers o text? result).members.mapM Member.respelled =
        (fun members => (c.withPointers o text? { result with members }).members) <$>
          result.members.mapM Member.respelled := by
      simp [withPointers, mapM_respelled_pointParams, mapM_respelled_pointField]
    rw [respelled, hmembers]
    rfl
  · rfl

end Classes

end ClassDecl

end ExplicitInit
