import ExplicitInit.Proofs.PhaseOrder
import ExplicitInit.Proofs.ReportedCounts

namespace ExplicitInit

namespace ClassDecl

def NotesRoles (c : ClassDecl) : Prop :=
  ∀ k ∈ c.constructors, k.role = some k.roleByBody

def DeclaresEnclosing (c : ClassDecl) : Prop :=
  c.isInterface = false → ∀ link rest, c.enclosing = link :: rest →
    (c.field? link.field).isSome = true

/-- The class with the roles of its constructors noted and the field for its enclosing instance
declared, which no run counts. -/
def annotated (c : ClassDecl) : ClassDecl :=
  if c.isInterface then c
  else { c with members := c.members.map Member.classified }.withEnclosingField

structure NothingToMove (c : ClassDecl) : Prop where
  complete : c.isInterface = false → c.constructors ≠ []
  lowered : ∀ k ∈ c.constructors, k.isLowered = true
  ofInstance : c.isInterface = false → c.instanceInitializers = []
  ofClass : c.preamble .ofClass = []

/-- Nothing is left to do that a run counts. -/
structure NothingToCount (o : Options) (c : ClassDecl) : Prop extends c.NothingToMove where
  settled : o.respellLiterals = true → c.IsSettled

variable {o : Options} {c : ClassDecl}

theorem annotated_of_noted (hr : c.NotesRoles) (he : c.DeclaresEnclosing) : c.annotated = c := by
  unfold annotated
  split
  · rfl
  · rename_i hc
    rw [map_classified_of_noted hr]
    exact withEnclosingField_of_declared (he (by simpa using hc))

theorem notesRoles_of_normal (h : c.IsNormal) : c.NotesRoles :=
  fun k hk => (h.lowered k hk).2

theorem running_annotated (c : ClassDecl) :
    c.annotated.members.filterMap Member.running? = c.members.filterMap Member.running? := by
  unfold annotated
  split
  · rfl
  · rw [filterMap_withEnclosingField _ fun _ _ => rfl, List.filterMap_map]
    congr 1
    funext m
    cases m <;> rfl

theorem isSettled_iff :
    c.IsSettled ↔ ∀ b ∈ c.members.filterMap Member.running?, ∀ x ∈ b.nodes, x.isSettled = true := by
  simp only [List.mem_filterMap]
  exact ⟨fun h b ⟨m, hm, hb⟩ => h m hm b hb, fun h m hm b hb => h b ⟨m, hm, hb⟩⟩

theorem isSettled_annotated_iff : c.annotated.IsSettled ↔ c.IsSettled := by
  rw [isSettled_iff, isSettled_iff, running_annotated]

section NothingToMove

variable (h : c.NothingToMove)

include h

theorem lacksConstructor_of_nothingToMove : c.lacksConstructor = false := by
  cases hc : c.isInterface with
  | true => simp [lacksConstructor, hc]
  | false => simp [lacksConstructor, h.complete hc]

theorem isLowered_withRoles_of_nothingToMove {k : Constructor}
    (hk : k ∈ (c.withRoles o).constructors) : k.isLowered = true := by
  cases hc : c.isInterface with
  | true =>
    rw [withRoles_of_interface o c hc] at hk
    exact h.lowered k hk
  | false =>
    rw [constructors_withRoles o hc, constructors_withImplicitConstructor o hc,
      if_neg (h.complete hc)] at hk
    obtain ⟨k₀, hm, rfl⟩ := List.mem_map.mp hk
    exact h.lowered k₀ hm

theorem preamble_withRoles_of_nothingToMove (hc : c.isInterface = false) :
    (c.withRoles o).preamble .ofInstance = [] := by
  rw [preamble_withRoles, preamble_ofInstance hc, h.ofInstance hc]

theorem preamble_lowered_of_nothingToMove : ((c.withRoles o).lowered o).preamble .ofClass = [] :=
  (preamble_ofClass_lowered_withRoles o c).trans h.ofClass

theorem initialized_of_nothingToMove : c.initialized o = c.annotated := by
  rw [initialized, withClassSetup_of_preamble (preamble_lowered_of_nothingToMove h), annotated]
  cases hc : c.isInterface with
  | true =>
    rw [withRoles_of_interface o c hc, lowered_of_interface o hc]
    rfl
  | false =>
    have hr : c.withRoles o = { c with members := c.members.map Member.classified } := by
      simp [withRoles, withImplicitConstructor, hc, lacksConstructor_of_nothingToMove h]
    have hi : (c.withRoles o).isInterface = false := (isInterface_withRoles o c).trans hc
    rw [lowered_of_lowered hi (fun k => isLowered_withRoles_of_nothingToMove h)
      (preamble_withRoles_of_nothingToMove h hc), hr]
    rfl

end NothingToMove

section Unreported

theorem instanceInitializers_of_unreported (hi : c.isInterface = false) (hf : c.fault? = none)
    (hl : ∀ k ∈ (c.withImplicitConstructor o).constructors, k.isLowered = true)
    (h : (c.changes o).instanceMoved = 0) : c.instanceInitializers = [] := by
  obtain ⟨d, hd, hdes⟩ := exists_designated_of_fault? hi hf o
  rw [instanceMoved_of_lowered hi hl hd hdes, hoisted, List.length_map] at h
  exact List.length_eq_zero_iff.mp h

theorem nothingToMove_of_unreported (hf : c.fault? = none) (h : c.changes o = .zero) :
    c.NothingToMove := by
  have hadded : c.lacksConstructor = false := congrArg Summary.constructorAdded h
  have hstatic : c.preamble .ofClass = [] := by
    rw [← preamble_ofClass_lowered_withRoles o c]
    exact List.length_eq_zero_iff.mp (congrArg Summary.staticMoved h)
  cases hc : c.isInterface with
  | true =>
    have hnone : c.constructors = [] :=
      interfaceFault?_eq_none_iff.mp (fault?_eq_none_iff.mp hf).1 hc
    exact ⟨fun hi => by simp [hc] at hi, by simp [hnone], fun hi => by simp [hc] at hi, hstatic⟩
  | false =>
    have hne : c.constructors ≠ [] := by simpa [lacksConstructor, hc] using hadded
    have hfull : (c.withImplicitConstructor o).constructors = c.constructors := by
      rw [constructors_withImplicitConstructor o hc, if_neg hne]
    have hl : ∀ k ∈ (c.withImplicitConstructor o).constructors, k.isLowered = true := by
      have hcount : (c.changes o).constructorsLowered = 0 :=
        congrArg Summary.constructorsLowered h
      rw [constructorsLowered_changes hc o, List.countP_eq_zero] at hcount
      intro k hk
      simpa using hcount k hk
    refine ⟨fun _ => hne, fun k hk => hl k (hfull ▸ hk), fun _ => ?_, hstatic⟩
    exact instanceInitializers_of_unreported hc hf hl (congrArg Summary.instanceMoved h)

theorem isSettled_of_snd_respelled (h : c.respelled.2 = 0) : c.IsSettled := by
  have hcount : c.respelled.2 = 0 + unsettled c.runningNodes := mapM_respelled_counts c.members 0
  rw [h, Nat.zero_add, eq_comm, unsettled, List.countP_eq_zero] at hcount
  intro m hm b hb x hx
  have hmem : x ∈ c.runningNodes :=
    List.mem_flatMap.mpr ⟨b, List.mem_filterMap.mpr ⟨m, hm, hb⟩, hx⟩
  simpa using hcount x hmem

theorem changes_eq_zero_iff (hf : c.fault? = none) :
    c.changes o = .zero ↔ c.NothingToCount o := by
  constructor
  · intro h
    have hm := nothingToMove_of_unreported hf h
    refine ⟨hm, fun ho => ?_⟩
    have hrespelled : ((c.initialized o).withRespelling o).2 = 0 :=
      congrArg Summary.literalsRespelled h
    rw [initialized_of_nothingToMove hm, withRespelling, if_pos ho] at hrespelled
    exact isSettled_annotated_iff.mp (isSettled_of_snd_respelled hrespelled)
  · intro h
    have hm := h.toNothingToMove
    have hp : (c.withRoles o).isInterface = false → (c.withRoles o).preamble .ofInstance = [] := by
      rw [isInterface_withRoles]
      exact preamble_withRoles_of_nothingToMove hm
    have hs : (c.annotated.withRespelling o) = (c.annotated, 0) :=
      withRespelling_of_settled fun ho => isSettled_annotated_iff.mpr (h.settled ho)
    simp only [changes]
    rw [loweringSummary_of_lowered (fun k => isLowered_withRoles_of_nothingToMove hm) hp,
      lacksConstructor_of_nothingToMove hm, preamble_lowered_of_nothingToMove hm,
      initialized_of_nothingToMove hm, hs]
    rfl

theorem normalized_of_nothingToCount (h : c.NothingToCount o) : c.normalized o = c.annotated := by
  rw [normalized, initialized_of_nothingToMove h.toNothingToMove,
    withRespelling_of_settled fun ho => isSettled_annotated_iff.mpr (h.settled ho)]

end Unreported

theorem unreported_of_normalized (hf : c.fault? = none) (h : c.normalized o = c) :
    c.IsNormal ∧ c.changes o = .zero := by
  have hn : c.IsNormal := h ▸ isNormal_normalized (o := o) hf
  have hs : o.respellLiterals = true → c.IsSettled := fun ho => h ▸ isSettled_normalized ho
  obtain ⟨_, _, hz⟩ := normalize_eq_ok_iff.mp (normalize_of_normal hn hs)
  exact ⟨hn, hz⟩

/-- A report is empty where nothing was left to count, and then a run does no more than to note roles
and to declare the field for the enclosing instance. The report is empty exactly for the classes
that stay as they are, if those with nothing left to count have had both done before. -/
theorem normalize_reports_iff {c' : ClassDecl} {s : Summary} (h : c.normalize o = .ok (c', s)) :
    (s.isZero = true → c' = c.annotated) ∧ (s.isZero = true ↔ c.NothingToCount o) ∧
      ((s.isZero = true ↔ c' = c) ↔
        (c.NothingToCount o → c.NotesRoles ∧ c.DeclaresEnclosing)) := by
  obtain ⟨hf, rfl, rfl⟩ := normalize_eq_ok_iff.mp h
  have hzero : (c.changes o).isZero = true ↔ c.NothingToCount o :=
    beq_iff_eq.trans (changes_eq_zero_iff hf)
  rw [hzero]
  refine ⟨normalized_of_nothingToCount, Iff.rfl, ?_, ?_⟩
  · intro hiff hn
    have hnormal := (unreported_of_normalized hf (hiff.mp hn)).1
    exact ⟨notesRoles_of_normal hnormal, hnormal.enclosing⟩
  · intro hdone
    refine ⟨fun hn => ?_, fun heq => ?_⟩
    · obtain ⟨hr, he⟩ := hdone hn
      exact (normalized_of_nothingToCount hn).trans (annotated_of_noted hr he)
    · exact (changes_eq_zero_iff hf).mp (unreported_of_normalized hf heq).2

def pageNote (role : Option Role) (fields : List Field) : ClassDecl where
  type := ⟨⟨1⟩, "Note"⟩
  kind := .ordinary
  superclass := none
  enclosing := [.to ⟨⟨2⟩, "Page"⟩]
  members := fields.map .field ++ [.constructor
    { Constructor.ofBody "initWithPage:" [.enclosing "outer$" "Page *"]
        [.allocationGuard (.toSuperclass "init" [])
          (.ofList [
            .ofExpr (.assignment (.fieldName (.ofInstance ⟨⟨1⟩, "Note"⟩ "this$0"))
              (.localVar "outer$")),
            .ofExpr (.hook "JreMemDebugAdd" (.self .synthetic) .synthetic)]) .synthetic,
          .returning (some (.self .synthetic))] with
      role := role
      preambleLength := some 1 }]
  span := .synthetic

theorem normalize_reports_iff_pageNote :
    ∃ c' s, (pageNote (some .designated) [.ofName "this$0" "Page *"]).normalize .standard =
        .ok (c', s) ∧
      (s.isZero = true ↔ c' = pageNote (some .designated) [.ofName "this$0" "Page *"]) := by
  have h : (pageNote (some .designated) [.ofName "this$0" "Page *"]).normalize .standard =
      .ok (_, _) :=
    normalize_eq_ok_iff.mpr ⟨by decide +kernel, rfl, rfl⟩
  refine ⟨_, _, h, (normalize_reports_iff h).2.2.mpr fun _ => ⟨?_, ?_⟩⟩
  · have hroles : ∀ k ∈ (pageNote (some .designated) [.ofName "this$0" "Page *"]).constructors,
        k.role = some k.roleByBody := by decide +kernel
    exact hroles
  · intro _ link rest he
    obtain ⟨rfl, _⟩ := List.cons.inj he
    decide +kernel

/-- The report is empty, and the class gets a field. -/
theorem not_reports_pageNote :
    ∃ c' s, (pageNote (some .designated) []).normalize .standard = .ok (c', s) ∧
      s.isZero = true ∧ c' ≠ pageNote (some .designated) [] := by
  refine ⟨_, _, normalize_eq_ok_iff.mpr ⟨by decide +kernel, rfl, rfl⟩, by decide +kernel, ?_⟩
  intro h
  have hlength := congrArg (·.members.length) h
  exact absurd hlength (by decide +kernel)

end ClassDecl

end ExplicitInit
