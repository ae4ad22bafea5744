import ExplicitInit.Proofs.Idempotence
import ExplicitInit.Proofs.Setup

namespace ExplicitInit.ClassDecl

def staticBlock? : Member → Option InitBlock
  | .block b => if b.isStatic then some b else none
  | .field _ | .constructor _ | .method _ => none

def staticBlocks (c : ClassDecl) : List InitBlock :=
  c.members.filterMap staticBlock?

/-- Normalization gives an interface nothing to run. -/
structure StaysPassive (o : Options) (c c' : ClassDecl) (s : Summary) : Prop where
  constructors : c'.constructors = []
  setups : c'.setups = c.setups.map (Method.adjusted o.adjuster)
  fields : c'.fields = c.fields
  constructorsLowered : s.constructorsLowered = 0
  instanceMoved : s.instanceMoved = 0
  staticMoved : s.staticMoved = 0

section

variable {c : ClassDecl} {o : Options}

theorem staticBlocks_eq_nil_iff :
    c.staticBlocks = [] ↔ ∀ b, .block b ∈ c.members → b.isStatic = false := by
  rw [staticBlocks, List.filterMap_eq_nil_iff]
  constructor
  · intro h b hb
    simpa [staticBlock?] using h _ hb
  · intro h m hm
    cases m with
    | block b => simp [staticBlock?, h b hm]
    | _ => rfl

theorem preamble_of_interface (h : c.isInterface = true) :
    c.preamble .ofClass = c.staticBlocks.map fun b => .block b.body := by
  rw [preamble, staticBlocks, List.map_filterMap]
  congr 1
  funext m
  cases m with
  | field f => simp [moved, staticBlock?, Field.stays, h]
  | block b => cases hb : b.isStatic <;> simp [moved, staticBlock?, InitBlock.side, hb]
  | constructor k => rfl
  | method f => rfl

theorem fields_normalized_of_interface (h : c.isInterface = true) :
    (c.normalized o).fields = c.fields := by
  have hm (m : Member) : (c.unmoved .ofClass m).bind Member.field? = m.field? := by
    cases m with
    | field f => simp [unmoved, Field.stays, h, Member.field?]
    | block b => cases hb : b.isStatic <;> simp [unmoved, InitBlock.side, hb, Member.field?]
    | constructor k => rfl
    | method f => rfl
  rw [fields_eq_declarations, fields_eq_declarations, declarations_normalized,
    withRoles_of_interface o c h, lowered_of_interface o h, declarations_withClassSetup,
    List.filterMap_filterMap]
  congr 1
  funext m
  exact hm m

theorem changes_of_interface (h : c.isInterface = true) :
    c.changes o =
      { Summary.zero with
        staticMoved := c.staticBlocks.length
        literalsRespelled := ((c.initialized o).withRespelling o).2 } := by
  have hl : c.lacksConstructor = false := by simp [lacksConstructor, h]
  simp only [changes, withRoles_of_interface o c h, lowered_of_interface o h, loweringSummary, h, hl,
    preamble_of_interface h, List.length_map]
  rfl

theorem setups_normalized_of_interface (h : c.isInterface = true) :
    (c.normalized o).setups =
      ((c.setupWith o (c.staticBlocks.map fun b => .block b.body) c.setup?).toList ++
        c.setups.tail).map (Method.adjusted o.adjuster) := by
  rw [setups_normalized, preamble_of_interface h]

theorem setups_of_no_statement :
    (c.setupWith o [] c.setup?).toList ++ c.setups.tail = c.setups := by
  rw [setup?_eq_head?]
  cases c.setups <;> rfl

/-- An interface gets no constructor and no statement of an instance, and its fields stay as they
are. It gets nothing to run at all exactly if it has no block of the class. -/
theorem normalize_staysPassive_iff (hc : c.kind = .interface) {c' : ClassDecl} {s : Summary}
    (h : c.normalize o = .ok (c', s)) :
    (c'.constructors = [] ∧ c'.fields = c.fields ∧ s.constructorsLowered = 0 ∧
      s.instanceMoved = 0 ∧ s.staticMoved = c.staticBlocks.length ∧
      c'.setups = ((c.setupWith o (c.staticBlocks.map fun b => .block b.body) c.setup?).toList ++
        c.setups.tail).map (Method.adjusted o.adjuster)) ∧
    (c.StaysPassive o c' s ↔ ∀ b, .block b ∈ c.members → b.isStatic = false) := by
  obtain ⟨hf, rfl, rfl⟩ := normalize_eq_ok_iff.mp h
  have hi : c.isInterface = true := isInterface_eq_true_iff.mpr hc
  have hk : (c.normalized o).constructors = [] := by
    rw [constructors_normalized_of_interface hi,
      interfaceFault?_eq_none_iff.mp (fault?_eq_none_iff.mp hf).1 hi]
    rfl
  have hfields : (c.normalized o).fields = c.fields := fields_normalized_of_interface hi
  have hsetups := setups_normalized_of_interface (o := o) hi
  rw [changes_of_interface hi, ← staticBlocks_eq_nil_iff]
  refine ⟨⟨hk, hfields, rfl, rfl, rfl, hsetups⟩, fun hs => ?_, fun hb => ?_⟩
  · exact List.eq_nil_of_length_eq_zero hs.staticMoved
  · rw [hb, List.map_nil, setups_of_no_statement] at hsetups
    exact ⟨hk, hsetups, hfields, rfl, rfl, by rw [hb]; rfl⟩

end

def clock : ClassDecl where
  type := ⟨⟨1⟩, "Clock"⟩
  kind := .interface
  superclass := none
  enclosing := []
  members := [
    .field ⟨"ticks", "int", true, true, some (.int 60 .synthetic), false, .synthetic⟩,
    .field ⟨"zone", "Zone", false, false, some (.access (.self .synthetic)
      (.ofInstance ⟨⟨1⟩, "Clock"⟩ "local")), false, .synthetic⟩,
    .block (.ofInstance [.ofExpr (.ofText "wound")]),
    .method (.classSetup "initialize" [] [.ofExpr (.ofText "set")]),
    .method (.ofBody "tick" "void" [] [])]
  span := .synthetic

theorem normalize_staysPassive_iff_clock :
    clock.kind = .interface ∧ ∃ c' s, clock.normalize .standard = .ok (c', s) ∧
      clock.StaysPassive .standard c' s := by
  have h : clock.normalize .standard =
      .ok (clock.normalized .standard, clock.changes .standard) :=
    normalize_eq_ok_iff.mpr ⟨by decide +kernel, rfl, rfl⟩
  have hb : ∀ b, .block b ∈ clock.members → b.isStatic = false := by
    simp [clock, InitBlock.ofInstance]
  exact ⟨rfl, _, _, h, (normalize_staysPassive_iff rfl h).2.mpr hb⟩

def palette : ClassDecl where
  type := ⟨⟨1⟩, "Palette"⟩
  kind := .interface
  superclass := none
  enclosing := []
  members := [.block (.ofClass [.ofExpr (.localVar "ready")])]
  span := .synthetic

/-- The palette gets a setup method that runs its block. -/
theorem not_staysPassive_palette :
    palette.kind = .interface ∧ palette.setups = [] ∧
      ∃ c' s, palette.normalize .standard = .ok (c', s) ∧ c'.setups.length = 1 ∧
        s.staticMoved = 1 ∧ ¬palette.StaysPassive .standard c' s := by
  have h : palette.normalize .standard =
      .ok (palette.normalized .standard, palette.changes .standard) :=
    normalize_eq_ok_iff.mpr ⟨by decide +kernel, rfl, rfl⟩
  have hs : (palette.changes .standard).staticMoved = 1 := by decide +kernel
  refine ⟨rfl, rfl, _, _, h, by decide +kernel, hs, fun hp => ?_⟩
  rw [hp.staticMoved] at hs
  cases hs

end ExplicitInit.ClassDecl
