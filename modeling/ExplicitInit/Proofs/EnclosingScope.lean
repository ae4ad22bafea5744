import ExplicitInit.Proofs.EnclosingHandover

namespace ExplicitInit

/-- The local variable whose value a statement assigns to a field. -/
def Stmt.assignedFrom? (f : FieldRef) : Stmt → Option String
  | .expr (.assign (.name _ (some (.field g)) _) (.name x (some .localVar) _) _) _ =>
    if g = f then some x else none
  | _ => none

namespace Constructor

/-- The name by which a lowered constructor reads the enclosing instance: to assign it to the field
first thing after the allocation, or to pass it to the sibling as the first argument. -/
def enclosingRead? (f : FieldRef) (k : Constructor) : Option String :=
  match k.allocation? with
  | some (i, rest) =>
    if i.delegates then i.args.head?.bind Expr.name? else rest.head?.bind (Stmt.assignedFrom? f)
  | none => none

def DeclaresEnclosing (x : String) (k : Constructor) : Prop :=
  ∃ p ∈ k.params, p.kind = .enclosing ∧ p.name = x

def ReadsInScope (f : FieldRef) (k : Constructor) : Prop :=
  ∃ x, k.enclosingRead? f = some x ∧ k.DeclaresEnclosing x

theorem enclosingParam?_eq_none_iff {k : Constructor} :
    k.enclosingParam? = none ↔ ∀ p ∈ k.params, p.kind ≠ .enclosing := by
  simp [enclosingParam?, List.find?_eq_none]

theorem declaresEnclosing_withEnclosingParam (k : Constructor) (x type : String) :
    (k.withEnclosingParam (some (.enclosing x type))).DeclaresEnclosing x ↔
      k.enclosingParam? = none ∨ k.DeclaresEnclosing x := by
  cases hk : k.enclosingParam? with
  | none =>
    have hp : (k.withEnclosingParam (some (.enclosing x type))).params =
        .enclosing x type :: k.params :=
      withEnclosingParam_params (enclosingParam?_eq_none_iff.mp hk)
    refine ⟨fun _ => .inl rfl, fun _ => ⟨.enclosing x type, ?_, rfl, rfl⟩⟩
    rw [hp]
    exact List.mem_cons_self
  | some p => simp [withEnclosingParam, hk]

theorem name?_forwarding (o : Options) (i : Invocation) (p : Param) :
    (o.adjuster.mapInvocation (i.forwarding (some p))).args.head?.bind Expr.name? =
      some p.name := by
  unfold Invocation.forwarding
  dsimp only
  split
  · rename_i hp
    unfold Invocation.passes at hp
    split at hp
    · rename_i y b s later hargs
      rw [Rewriter.mapInvocation, hargs, Rewriter.mapExprs_cons, adjuster_mapExpr_name]
      exact congrArg some (eq_of_beq hp)
    · cases hp
  · rw [Rewriter.mapInvocation, Rewriter.mapExprs_cons, Expr.localVar,
      adjuster_mapExpr_name]
    rfl

end Constructor

namespace ClassDecl

variable {o : Options} {c : ClassDecl} {link : EnclosingLink} {outer : List EnclosingLink}
  {k : Constructor}

theorem enclosingRead?_normalConstructor (he : c.enclosing = link :: outer)
    (hh : c.HoistsInto o k (c.normalConstructor o k)) (hl : k.isLowered = false) :
    (c.normalConstructor o k).enclosingRead? (c.enclosingField link) = some link.param := by
  cases hd : k.isDesignated with
  | true =>
    obtain ⟨later, ha⟩ := allocation?_normalConstructor_designated he hh hl hd
    have hi := Constructor.allocation_of_designated hl hd o.defaultSelector
    simp only [Constructor.enclosingRead?, ha]
    rw [if_neg (by simpa [Rewriter.mapInvocation, Invocation.delegates] using hi)]
    simp [Stmt.ofExpr, Expr.assignment, Expr.fieldName, Expr.localVar, Stmt.assignedFrom?]
  | false =>
    obtain ⟨i, rest, _, hi, ha⟩ := allocation?_normalConstructor_delegating hh hl hd
    have hdelegates : (o.adjuster.mapInvocation (i.forwarding c.enclosingParam?)).delegates =
        true := by
      rw [← hi]
      exact congrArg (· == Callee.sibling) (Constructor.forwarding_callee i _)
    have hparam : c.enclosingParam? = some (.enclosing link.param (enclosingPointer link)) := by
      simp [enclosingParam?, he]
    simp only [Constructor.enclosingRead?, ha]
    rw [if_pos hdelegates, hparam]
    exact Constructor.name?_forwarding o i _

theorem declaresEnclosing_normalConstructor (he : c.enclosing = link :: outer)
    (hl : k.isLowered = false) :
    (c.normalConstructor o k).DeclaresEnclosing link.param ↔
      k.enclosingParam? = none ∨ k.DeclaresEnclosing link.param := by
  have hx : (c.loweringContext o).enclosingParam =
      some (.enclosing link.param (enclosingPointer link)) := by
    simp [loweringContext, enclosingParam?, he]
  have hparams := Constructor.lower_params (k := k.classified) (c.loweringContext o) hl k.roleByBody
  rw [hx] at hparams
  have hsame : (c.normalConstructor o k).DeclaresEnclosing link.param ↔
      (k.classified.withEnclosingParam
        (some (.enclosing link.param (enclosingPointer link)))).DeclaresEnclosing link.param := by
    unfold Constructor.DeclaresEnclosing
    rw [← hparams]
    rfl
  rw [hsame]
  exact Constructor.declaresEnclosing_withEnclosingParam k.classified _ _

/-- Each constructor that a run lowers reads the enclosing instance by the name that the class has
for it. This is the name of its parameter for that instance exactly if it left the parameter to
normalization or declares one of that name. -/
theorem normalize_readsInScope_iff {c' : ClassDecl} {s : Summary} (he : c.enclosing = link :: outer)
    (h : c.normalize o = .ok (c', s)) :
    List.Forall₂ (fun k k' => k.isLowered = false →
        k'.enclosingRead? (c.enclosingField link) = some link.param ∧
        (k'.ReadsInScope (c.enclosingField link) ↔
          k.enclosingParam? = none ∨ k.DeclaresEnclosing link.param))
      (c.withImplicitConstructor o).constructors c'.constructors := by
  obtain ⟨hf, rfl, _⟩ := normalize_eq_ok_iff.mp h
  obtain ⟨hinterface, _, hb, _⟩ := fault?_eq_none_iff.mp hf
  cases hi : c.isInterface with
  | true =>
    have hk : c.constructors = [] := interfaceFault?_eq_none_iff.mp hinterface hi
    have hfull : c.withImplicitConstructor o = c := by
      simp [withImplicitConstructor, lacksConstructor, hi]
    rw [constructors_normalized_of_interface hi, hfull, hk]
    exact .nil
  | false =>
    rw [constructors_normalized o hi, List.forall₂_map_right_iff, List.forall₂_same]
    intro k hk hl
    have hread := enclosingRead?_normalConstructor he (normalConstructor_hoistsInto hi hb hk) hl
    refine ⟨hread, ?_⟩
    rw [← declaresEnclosing_normalConstructor (o := o) he hl]
    refine ⟨?_, fun hd => ⟨_, hread, hd⟩⟩
    rintro ⟨x, hx, hd⟩
    obtain rfl := Option.some.inj (hread.symm.trans hx)
    exact hd

def lamp : ClassDecl where
  type := ⟨⟨1⟩, "Lamp"⟩
  kind := .ordinary
  superclass := none
  enclosing := [.to ⟨⟨2⟩, "Desk"⟩]
  members := [
    .constructor (.ofBody "init" [] [.ofExpr (.ofText "lit")]),
    .constructor (.ofBody "initWithPower:desk:"
      [.declared "power" "int", .enclosing "outer$" "Desk *"] [.toSibling "init" []])]
  span := .synthetic

theorem normalize_readsInScope_iff_lamp :
    lamp.enclosing = [.to ⟨⟨2⟩, "Desk"⟩] ∧
      ∃ c' s, lamp.normalize .standard = .ok (c', s) ∧ c'.constructors.length = 2 ∧
        ∀ k ∈ c'.constructors, k.ReadsInScope (.ofInstance ⟨⟨1⟩, "Lamp"⟩ "this$0") := by
  have h : lamp.normalize .standard = .ok (lamp.normalized .standard, lamp.changes .standard) :=
    normalize_eq_ok_iff.mpr ⟨by decide +kernel, rfl, rfl⟩
  obtain ⟨k₁, _, h₁, hrest, hk⟩ :=
    List.forall₂_cons_left_iff.mp (normalize_readsInScope_iff rfl h)
  obtain ⟨k₂, _, h₂, hnil, rfl⟩ := List.forall₂_cons_left_iff.mp hrest
  cases hnil
  refine ⟨rfl, _, _, h, congrArg List.length hk, ?_⟩
  rw [hk, List.forall_mem_cons, List.forall_mem_singleton]
  refine ⟨(h₁ rfl).2.mpr (.inl rfl), (h₂ rfl).2.mpr (.inr ?_)⟩
  exact ⟨.enclosing "outer$" "Desk *", by decide, rfl, rfl⟩

def tray : ClassDecl where
  type := ⟨⟨1⟩, "Tray"⟩
  kind := .ordinary
  superclass := none
  enclosing := [.to ⟨⟨2⟩, "Desk"⟩]
  members := [.constructor (.ofBody "initInDesk:" [.enclosing "owner" "Desk *"] [])]
  span := .synthetic

/-- The constructor of the tray has one parameter for the desk, and reads another name. -/
theorem not_readsInScope_tray :
    tray.isInner = true ∧ ∃ c' s, tray.normalize .standard = .ok (c', s) ∧
      ∃ k ∈ tray.constructors, k.isLowered = false ∧
      ∃ k' ∈ c'.constructors, k'.selector = k.selector ∧
        k'.params = [.enclosing "owner" "Desk *"] ∧
        k'.enclosingRead? (.ofInstance ⟨⟨1⟩, "Tray"⟩ "this$0") = some "outer$" ∧
        ¬k'.ReadsInScope (.ofInstance ⟨⟨1⟩, "Tray"⟩ "this$0") := by
  have h : tray.normalize .standard = .ok (tray.normalized .standard, tray.changes .standard) :=
    normalize_eq_ok_iff.mpr ⟨by decide +kernel, rfl, rfl⟩
  refine ⟨rfl, _, _, h, _, List.mem_cons_self, rfl, _, List.mem_cons_self, rfl, rfl, rfl, ?_⟩
  rintro ⟨x, hx, p, hp, _, hname⟩
  cases Option.some.inj hx
  cases List.mem_singleton.mp hp
  revert hname
  decide

end ClassDecl

end ExplicitInit
