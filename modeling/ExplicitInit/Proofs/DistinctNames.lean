import ExplicitInit.Proofs.EnclosingHandover
import ExplicitInit.Proofs.InsertionOrder
import Mathlib.Data.List.Nodup

namespace ExplicitInit

def Method.side (m : Method) : Side :=
  if m.isStatic then .ofClass else .ofInstance

/-- By what a member is called. A constructor is called as a method of the new instance. -/
def Member.signature? : Member → Option (Side × String)
  | .constructor k => some (.ofInstance, k.selector)
  | .method m => some (m.side, m.name)
  | .field _ | .block _ => none

namespace Constructor

def addedParams (p? : Option Param) (k : Constructor) : List Param :=
  if k.isLowered || k.enclosingParam?.isSome then [] else p?.toList

theorem lower_params_eq (x : LoweringContext) (k : Constructor) (role : Role) :
    (k.lower x role).params = k.addedParams x.enclosingParam ++ k.params := by
  cases hl : k.isLowered with
  | true =>
    rw [addedParams, hl, Bool.true_or, if_pos rfl, List.nil_append]
    unfold lower
    rw [if_pos hl]
    cases role with
    | designated =>
      dsimp only
      unfold extendPreamble
      split <;> rfl
    | delegating => rfl
  | false =>
    rw [lower_params x hl, addedParams, hl, Bool.false_or]
    unfold withEnclosingParam
    cases x.enclosingParam with
    | none => simp
    | some p => cases hk : k.enclosingParam? <;> simp

end Constructor

namespace ClassDecl

def signatures (c : ClassDecl) : List (Side × String) :=
  c.members.filterMap Member.signature?

structure NamesApart (c : ClassDecl) : Prop where
  fields : c.fieldNames.Nodup
  signatures : c.signatures.Nodup
  params : ∀ k ∈ c.constructors, (k.params.map Param.name).Nodup

/-- The names that normalization adds to methods and to parameters are new to the class. -/
structure AddsNewNames (o : Options) (c : ClassDecl) : Prop where
  selector : c.constructors = [] → (.ofInstance, o.defaultSelector) ∉ c.signatures
  setup : c.preamble .ofClass ≠ [] → c.setups = [] → (.ofClass, o.classSetup) ∉ c.signatures
  param : ∀ link ∈ c.enclosing.head?, ∀ k ∈ c.constructors,
    k.isLowered = false → k.enclosingParam? = none → link.param ∉ k.params.map Param.name

section

variable {o : Options} {c : ClassDecl}

theorem nodup_fieldNames_normalized (o : Options) (hi : c.isInterface = false)
    (h : c.fieldNames.Nodup) : (c.normalized o).fieldNames.Nodup := by
  obtain ⟨front, hnames, hfront, hnew⟩ := fieldNames_normalized o hi
  rw [hnames, List.nodup_append']
  exact ⟨hfront, h, hnew⟩

section Signatures

theorem signature?_of_keptAs {p? : Option Param} {m m' : Member} (h : m.KeptAs p? m') :
    m'.signature? = m.signature? := by
  cases h with
  | field | block | method => rfl
  | @constructor k k' hf _ =>
    have hselector : k'.selector = k.selector := (congrArg Constructor.selector hf :)
    rw [Member.signature?, Member.signature?, hselector]
  | @setup f f' _ hf =>
    have hside : f'.side = f.side := (congrArg Method.side hf :)
    have hname : f'.name = f.name := (congrArg Method.name hf :)
    rw [Member.signature?, Member.signature?, hside, hname]

def addedSignatures (o : Options) (c : ClassDecl) : List (Side × String) :=
  (if c.lacksConstructor then [(.ofInstance, o.defaultSelector)] else []) ++
    if c.preamble .ofClass = [] ∨ c.setups ≠ [] then [] else [(.ofClass, o.classSetup)]

theorem signatures_normalized (o : Options) (c : ClassDecl) :
    (c.normalized o).signatures.Perm (c.addedSignatures o ++ c.signatures) := by
  obtain ⟨rest, hmembers, hkept⟩ := members_normalized c o
  obtain ⟨before, after, hsplit, hfull, _⟩ := exists_implicitPosition c o
  have hfield : c.addedField.filterMap Member.signature? = [] := by
    obtain h | ⟨f, _, h⟩ := addedField_cases c <;> rw [h] <;> rfl
  have hsetup : (c.addedSetup o).filterMap Member.signature? =
      if c.preamble .ofClass = [] ∨ c.setups ≠ [] then [] else [(.ofClass, o.classSetup)] := by
    unfold addedSetup
    split <;> rfl
  have hrest : rest.filterMap Member.signature? =
      before.filterMap Member.signature? ++
        (if c.lacksConstructor then [(.ofInstance, o.defaultSelector)] else []) ++
          after.filterMap Member.signature? := by
    rw [filterMap_of_keptAs signature?_of_keptAs hkept, filterMap_filter_isConsumed fun _ => rfl,
      hfull, List.filterMap_append, List.filterMap_append]
    congr 2
    split <;> rfl
  have hbefore : c.signatures =
      before.filterMap Member.signature? ++ after.filterMap Member.signature? := by
    rw [signatures, hsplit, List.filterMap_append]
  rw [signatures, hmembers, List.filterMap_append, List.filterMap_append, hfield, hsetup, hrest,
    addedSignatures, hbefore]
  grind

theorem addedSignatures_disjoint_iff (o : Options) (hi : c.isInterface = false) :
    (c.addedSignatures o).Disjoint c.signatures ↔
      (c.constructors = [] → (.ofInstance, o.defaultSelector) ∉ c.signatures) ∧
        (c.preamble .ofClass ≠ [] → c.setups = [] → (.ofClass, o.classSetup) ∉ c.signatures) := by
  rw [addedSignatures, List.disjoint_append_left, lacksConstructor, hi]
  by_cases hk : c.constructors = [] <;> by_cases hp : c.preamble .ofClass = [] <;>
    by_cases hs : c.setups = [] <;> simp [hk, hp, hs]

theorem nodup_signatures_normalized_iff (o : Options) (h : c.signatures.Nodup) :
    (c.normalized o).signatures.Nodup ↔ (c.addedSignatures o).Disjoint c.signatures := by
  have hadded : (c.addedSignatures o).Nodup := by
    unfold addedSignatures
    split <;> split <;> simp
  rw [(signatures_normalized o c).nodup_iff, List.nodup_append']
  exact ⟨fun hn => hn.2.2, fun hd => ⟨hadded, h, hd⟩⟩

end Signatures

section Params

variable {k : Constructor}

theorem params_normalConstructor (o : Options) (c : ClassDecl) (k : Constructor) :
    (c.normalConstructor o k).params = k.addedParams c.enclosingParam? ++ k.params :=
  Constructor.lower_params_eq (c.loweringContext o) k.classified k.roleByBody

theorem nodup_params_normalConstructor_iff (o : Options) (h : (k.params.map Param.name).Nodup) :
    ((c.normalConstructor o k).params.map Param.name).Nodup ↔
      ∀ link ∈ c.enclosing.head?, k.isLowered = false → k.enclosingParam? = none →
        link.param ∉ k.params.map Param.name := by
  rw [params_normalConstructor, List.map_append, Constructor.addedParams, enclosingParam?]
  cases c.enclosing with
  | nil => simpa using h
  | cons link outer =>
    cases k.isLowered <;> cases k.enclosingParam? <;> simp [Param.enclosing, h]

end Params

/-- Fields never get to share a name. Constructors, methods and parameters do exactly where a name
that is added is that of something of another kind. -/
theorem normalize_namesApart_iff {c' : ClassDecl} {s : Summary} (hc : c.kind = .ordinary)
    (hapart : c.NamesApart) (h : c.normalize o = .ok (c', s)) :
    c'.fieldNames.Nodup ∧ (c'.NamesApart ↔ c.AddsNewNames o) := by
  obtain ⟨_, rfl, _⟩ := normalize_eq_ok_iff.mp h
  have hi : c.isInterface = false := by rw [isInterface, hc]; rfl
  have hfields := nodup_fieldNames_normalized o hi hapart.fields
  have hsignatures := (nodup_signatures_normalized_iff o hapart.signatures).trans
    (addedSignatures_disjoint_iff o hi)
  have hparams : (∀ k' ∈ (c.normalized o).constructors, (k'.params.map Param.name).Nodup) ↔
      ∀ k ∈ c.constructors, ∀ link ∈ c.enclosing.head?, k.isLowered = false →
        k.enclosingParam? = none → link.param ∉ k.params.map Param.name := by
    rw [constructors_normalized o hi, List.forall_mem_map,
      constructors_withImplicitConstructor o hi]
    split
    · rename_i hnone
      rw [hnone]
      simp [nodup_params_normalConstructor_iff, Constructor.implicit, Constructor.ofBody]
    · exact forall₂_congr fun k hk => nodup_params_normalConstructor_iff o (hapart.params k hk)
  refine ⟨hfields, fun hn => ?_, fun ha => ?_⟩
  · obtain ⟨hselector, hsetup⟩ := hsignatures.mp hn.signatures
    exact ⟨hselector, hsetup, fun link hl k hk => hparams.mp hn.params k hk link hl⟩
  · exact ⟨hfields, hsignatures.mpr ⟨ha.selector, ha.setup⟩,
      hparams.mpr fun k hk link hl => ha.param link hl k hk⟩

theorem normalize_namesApart_iff_drawer :
    drawer.kind = .ordinary ∧ drawer.NamesApart ∧
      ∃ c' s, drawer.normalize .standard = .ok (c', s) ∧
        drawer.AddsNewNames .standard ∧ c'.NamesApart := by
  have h : drawer.normalize .standard =
      .ok (drawer.normalized .standard, drawer.changes .standard) :=
    normalize_eq_ok_iff.mpr ⟨by decide +kernel, rfl, rfl⟩
  have hapart : drawer.NamesApart := ⟨by decide, by decide, by decide⟩
  have hnew : drawer.AddsNewNames .standard :=
    ⟨fun _ => by decide, fun _ _ => by decide, fun _ _ _ hk => nomatch hk⟩
  exact ⟨rfl, hapart, _, _, h, hnew, (normalize_namesApart_iff rfl hapart h).2.mpr hnew⟩

def latch : ClassDecl where
  type := ⟨⟨1⟩, "Latch"⟩
  kind := .ordinary
  superclass := none
  enclosing := [.to ⟨⟨2⟩, "Gate"⟩]
  members := [.constructor (.ofBody "initWithSide:" [.declared "outer$" "int"] [])]
  span := .synthetic

/-- The constructor gets a second parameter of the name. -/
theorem not_namesApart_latch :
    latch.kind = .ordinary ∧ latch.NamesApart ∧
      ∃ c' s, latch.normalize .standard = .ok (c', s) ∧
        (c'.constructors.map fun k => k.params.map Param.name) = [["outer$", "outer$"]] ∧
        ¬ c'.NamesApart := by
  have h : latch.normalize .standard =
      .ok (latch.normalized .standard, latch.changes .standard) :=
    normalize_eq_ok_iff.mpr ⟨by decide +kernel, rfl, rfl⟩
  have hparams : ((latch.normalized .standard).constructors.map fun k =>
      k.params.map Param.name) = [["outer$", "outer$"]] := by
    rw [constructors_normalized .standard rfl]
    rfl
  refine ⟨rfl, ⟨by decide, by decide, by decide⟩, _, _, h, hparams, fun hapart => ?_⟩
  have htwice : ∀ names ∈ [["outer$", "outer$"]], names.Nodup :=
    hparams ▸ List.forall_mem_map.mpr hapart.params
  exact absurd (htwice _ List.mem_cons_self) (by decide)

end

end ClassDecl

end ExplicitInit
