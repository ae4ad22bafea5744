import ExplicitInit.Proofs.Execution
import ExplicitInit.Proofs.Setup

namespace ExplicitInit

def setupStatements : Option Method → List Stmt
  | some m => m.body.statements
  | none => []

namespace Machine

variable {ε : Type}

def on (M : Machine ε) (running : TypeRef) : Machine ε :=
  { M with isExactly := running.same }

variable (M : Machine ε)

theorem run_append {ss : List Stmt} (hss : Stmt.anyMayReturn ss = false) (ts : List Stmt)
    (h : List ε) : M.run (ss ++ ts) h = M.run ts (M.run ss h) :=
  congrArg Prod.fst (M.execStmts_append (M.execStmts_eq_run hss h) ts)

theorem run_singleton (s : Stmt) (h : List ε) : M.run [s] h = (M.execStmt s h).1 := by
  simp only [run, execStmts]
  cases M.execStmt s h with
  | mk h' ending => cases ending <;> rfl

theorem run_classGuard_of_other {running guarded : TypeRef} (hr : running.id ≠ guarded.id)
    (b : Block) (span : Span) (h : List ε) :
    (M.on running).run [.classGuard guarded b span] h = h := by
  have hx : (M.on running).isExactly guarded = false := by simp [on, TypeRef.same, hr]
  rw [run_singleton, execStmt, hx]
  rfl

theorem run_classGuard_of_exact {running guarded : TypeRef} (hr : running.id = guarded.id)
    (b : Block) (span : Span) (h : List ε) :
    (M.on running).run [.classGuard guarded b span] h = (M.on running).run b.statements h := by
  have hx : (M.on running).isExactly guarded = true := by simp [on, hr]
  rw [run_singleton, execStmt, hx]
  cases b
  rfl

end Machine

theorem Stmt.anyMayReturn_append (ss ts : List Stmt) :
    Stmt.anyMayReturn (ss ++ ts) = (Stmt.anyMayReturn ss || Stmt.anyMayReturn ts) := by
  induction ss with
  | nil => rfl
  | cons s ss ih => simp [Stmt.anyMayReturn, ih, Bool.or_assoc]

theorem Stmt.anyMayReturn_classGuard (guarded : TypeRef) (b : Block) (span : Span) :
    Stmt.anyMayReturn [.classGuard guarded b span] = Stmt.anyMayReturn b.statements := by
  rw [← Block.mayReturn_eq]
  simp [Stmt.anyMayReturn, Stmt.mayReturn]

section Guards

variable {type : TypeRef} {added : List Stmt}

def Stmt.guards (type : TypeRef) : Stmt → Bool
  | .classGuard guarded _ _ => guarded.same type
  | _ => false

/-- The place right behind the last guard for a class, or the end if there is no guard for it. -/
structure SetupPoint (type : TypeRef) (before after : List Stmt) : Prop where
  last : ∀ s ∈ after, s.guards type = false
  place : (∃ earlier s, before = earlier ++ [s] ∧ s.guards type = true) ∨
    (after = [] ∧ ∀ s ∈ before, s.guards type = false)

theorem extendedGuard?_eq_none_iff_guards {s : Stmt} :
    s.extendedGuard? type added = none ↔ s.guards type = false := by
  cases s with
  | classGuard guarded body span =>
    by_cases hg : guarded.same type = true <;> simp [Stmt.extendedGuard?, Stmt.guards, hg]
  | _ => simp [Stmt.extendedGuard?, Stmt.guards]

theorem extendedGuard?_eq_some {s s' : Stmt} (h : s.extendedGuard? type added = some s') :
    ∃ guarded body span, s = .classGuard guarded body span ∧ guarded.id = type.id ∧
      s' = .classGuard guarded { body with statements := body.statements ++ added } span := by
  cases s with
  | classGuard guarded body span =>
    by_cases hg : guarded.same type = true
    · simp only [Stmt.extendedGuard?, hg, if_true] at h
      exact ⟨guarded, body, span, rfl, TypeRef.same_iff.mp hg, (Option.some.inj h).symm⟩
    · simp [Stmt.extendedGuard?, hg] at h
  | _ => cases h

theorem intoLastGuard?_eq_none_iff_guards {ss : List Stmt} :
    intoLastGuard? type added ss = none ↔ ∀ s ∈ ss, s.guards type = false := by
  induction ss with
  | nil => simp [intoLastGuard?]
  | cons s ss ih =>
    rw [intoLastGuard?_cons, Option.or_eq_none_iff, Option.map_eq_none_iff, Option.map_eq_none_iff,
      ih, extendedGuard?_eq_none_iff_guards, List.forall_mem_cons, and_comm]

theorem intoLastGuard?_eq_some {ss ss' : List Stmt} (h : intoLastGuard? type added ss = some ss') :
    ∃ earlier s s' after, ss = earlier ++ [s] ++ after ∧ ss' = earlier ++ [s'] ++ after ∧
      s.extendedGuard? type added = some s' ∧ ∀ t ∈ after, t.guards type = false := by
  induction ss generalizing ss' with
  | nil => cases h
  | cons s ss ih =>
    rw [intoLastGuard?_cons] at h
    cases hs : intoLastGuard? type added ss with
    | some later =>
      rw [hs] at h
      cases Option.some.inj h
      obtain ⟨earlier, t, t', after, rfl, rfl, ht, ha⟩ := ih hs
      exact ⟨s :: earlier, t, t', after, rfl, rfl, ht, ha⟩
    | none =>
      rw [hs] at h
      obtain ⟨s', hs', rfl⟩ := Option.map_eq_some_iff.mp h
      exact ⟨[], s, s', ss, rfl, rfl, hs', intoLastGuard?_eq_none_iff_guards.mp hs⟩

/-- How a method with statements behind its guard for a class compares with the method without. -/
structure RunsGuarded (type : TypeRef) (added before after extended : List Stmt) : Prop where
  point : SetupPoint type before after
  other : ∀ {ε : Type} (M : Machine ε) (running : TypeRef) (h : List ε), running.id ≠ type.id →
    (M.on running).run extended h = (M.on running).run (before ++ after) h
  own : ∀ {ε : Type} (M : Machine ε) (running : TypeRef) (h : List ε), running.id = type.id →
    (M.on running).run extended h =
      (M.on running).run after ((M.on running).run added ((M.on running).run before h))

theorem runsGuarded_newGuard {ss : List Stmt} (hss : Stmt.anyMayReturn ss = false)
    (hn : ∀ s ∈ ss, s.guards type = false) :
    RunsGuarded type added ss [] (ss ++ [newGuard type added]) := by
  refine ⟨⟨by simp, .inr ⟨rfl, hn⟩⟩, ?_, ?_⟩
  · intro ε M running h hr
    rw [Machine.run_append _ hss, List.append_nil]
    exact M.run_classGuard_of_other hr _ _ _
  · intro ε M running h hr
    rw [Machine.run_append _ hss]
    exact M.run_classGuard_of_exact hr _ _ _

theorem runsGuarded_guard {earlier after : List Stmt} {guarded : TypeRef} {body : Block}
    {span : Span} (hid : guarded.id = type.id) (hearlier : Stmt.anyMayReturn earlier = false)
    (hbody : Stmt.anyMayReturn body.statements = false) (hadded : Stmt.anyMayReturn added = false)
    (hafter : ∀ s ∈ after, s.guards type = false) :
    RunsGuarded type added (earlier ++ [.classGuard guarded body span]) after
      (earlier ++ [.classGuard guarded { body with statements := body.statements ++ added } span] ++
        after) := by
  have hlast : Stmt.guards type (.classGuard guarded body span) = true := TypeRef.same_iff.mpr hid
  have hold : Stmt.anyMayReturn [.classGuard guarded body span] = false := by
    rw [Stmt.anyMayReturn_classGuard, hbody]
  have hnew : Stmt.anyMayReturn
      [.classGuard guarded { body with statements := body.statements ++ added } span] = false := by
    rw [Stmt.anyMayReturn_classGuard, Stmt.anyMayReturn_append, hbody, hadded]
    rfl
  refine ⟨⟨hafter, .inl ⟨earlier, _, rfl, hlast⟩⟩, ?_, ?_⟩
  · intro ε M running h hr
    have hr' : running.id ≠ guarded.id := by rwa [hid]
    rw [List.append_assoc, List.append_assoc, Machine.run_append _ hearlier,
      Machine.run_append _ hearlier, Machine.run_append _ hold, Machine.run_append _ hnew,
      M.run_classGuard_of_other hr', M.run_classGuard_of_other hr']
  · intro ε M running h hr
    have hr' : running.id = guarded.id := hr.trans hid.symm
    rw [List.append_assoc, Machine.run_append _ hearlier, Machine.run_append _ hnew,
      M.run_classGuard_of_exact hr', Machine.run_append _ hbody, Machine.run_append _ hearlier,
      M.run_classGuard_of_exact hr']

theorem runsGuarded_withGuarded {b : Block} (hb : b.mayReturn = false)
    (hadded : Stmt.anyMayReturn added = false) :
    ∃ before after, before ++ after = b.statements ∧
      RunsGuarded type added before after (b.withGuarded type added).statements := by
  rw [Block.mayReturn_eq] at hb
  unfold Block.withGuarded
  dsimp only
  cases hg : intoLastGuard? type added b.statements with
  | none =>
    have hn := intoLastGuard?_eq_none_iff_guards.mp hg
    exact ⟨b.statements, [], List.append_nil _, runsGuarded_newGuard hb hn⟩
  | some ss' =>
    obtain ⟨earlier, s, s', after, hss, rfl, hs, hafter⟩ := intoLastGuard?_eq_some hg
    obtain ⟨guarded, body, span, rfl, hid, rfl⟩ := extendedGuard?_eq_some hs
    rw [hss, Stmt.anyMayReturn_append, Bool.or_eq_false_iff, Stmt.anyMayReturn_append,
      Bool.or_eq_false_iff, Stmt.anyMayReturn_classGuard] at hb
    obtain ⟨⟨hearlier, hbody⟩, _⟩ := hb
    exact ⟨_, after, hss.symm, runsGuarded_guard hid hearlier hbody hadded hafter⟩

end Guards

def Field.declaresConstant (f : Field) : Bool :=
  f.isStatic && f.isFinal && f.initializer.any Expr.isDeclarable

namespace ClassDecl

/-- The statement that a member stands for when the class is initialized. -/
def staticInitializer? (c : ClassDecl) : Member → Option Stmt
  | .field f =>
    if f.isStatic && !f.declaresConstant then
      f.initializer.map fun e =>
        .expr (.assignment (.fieldName (.ofClass c.type f.name)) e) f.span
    else none
  | .block b => if b.isStatic then some (.block b.body) else none
  | .constructor _ | .method _ => none

/-- What initializes the class, in the order of declaration. -/
def staticInitializers (c : ClassDecl) : List Stmt :=
  c.members.filterMap c.staticInitializer?

variable {c : ClassDecl}

theorem stays_eq (h : c.isInterface = false) (f : Field) :
    f.stays c = (f.initializer.isNone || f.declaresConstant) := by
  cases hi : f.initializer <;> simp [Field.stays, Field.declaresConstant, h, hi]

theorem moved_ofClass (h : c.isInterface = false) (m : Member) :
    c.moved .ofClass m = c.staticInitializer? m := by
  cases m with
  | field f =>
    rw [moved, staticInitializer?, stays_eq h, Field.side, h]
    cases hi : f.initializer <;> cases hs : f.isStatic <;> simp
    rfl
  | block b => cases hs : b.isStatic <;> simp [moved, staticInitializer?, InitBlock.side, hs]
  | constructor k => rfl
  | method f => rfl

theorem preamble_ofClass (h : c.isInterface = false) :
    c.preamble .ofClass = c.staticInitializers := by
  unfold preamble staticInitializers
  congr 1
  funext m
  exact moved_ofClass h m

theorem staticInitializers_without_return (h : c.isInterface = false)
    (hb : ∀ b, .block b ∈ c.members → b.isStatic = true → b.body.mayReturn = false) :
    Stmt.anyMayReturn c.staticInitializers = false := by
  rw [← preamble_ofClass h]
  refine preamble_without_return fun b hm hside => hb b hm ?_
  by_contra hs
  simp [InitBlock.side, hs] at hside

section Normalized

variable {o : Options}

theorem setupStatements_map_adjusted (m? : Option Method) :
    setupStatements (m?.map (Method.adjusted o.adjuster)) =
      o.adjuster.mapStmts (setupStatements m?) := by
  cases m? with
  | none => rfl
  | some m => exact congrArg Block.statements (Rewriter.mapBlock_eq m.body)

theorem setupStatements_setupWith {statements : List Stmt} (hs : statements ≠ [])
    (m? : Option Method) :
    setupStatements (c.setupWith o statements m?) =
      (Block.withGuarded c.type statements (.ofList (setupStatements m?))).statements := by
  cases m? with
  | none =>
    rw [setupWith, if_neg hs]
    rfl
  | some m =>
    rw [setupWith, if_neg hs]
    rfl

theorem runsGuarded_setupWith {added : List Stmt} {m? : Option Method}
    (hm : Stmt.anyMayReturn (setupStatements m?) = false)
    (hadded : Stmt.anyMayReturn added = false) :
    ∃ before after, before ++ after = setupStatements m? ∧
      RunsGuarded c.type added before after (setupStatements (c.setupWith o added m?)) := by
  obtain ⟨before, after, hss, hg⟩ : ∃ before after, before ++ after = setupStatements m? ∧
      RunsGuarded c.type added before after
        (Block.withGuarded c.type added (.ofList (setupStatements m?))).statements :=
    runsGuarded_withGuarded (b := .ofList _) hm hadded
  by_cases hs : added = []
  -- With nothing to add the method stays as it is, and the point only divides it.
  · have hbefore : Stmt.anyMayReturn before = false := by
      rw [← hss, Stmt.anyMayReturn_append] at hm
      exact (Bool.or_eq_false_iff.mp hm).1
    have hsame : setupStatements (c.setupWith o added m?) = before ++ after := by
      rw [hs, hss]
      exact congrArg setupStatements (if_pos rfl)
    refine ⟨before, after, hss, hg.point, fun M running h _ => by rw [hsame], ?_⟩
    intro ε M running h _
    rw [hsame, Machine.run_append _ hbefore, hs]
    rfl
  · rw [setupStatements_setupWith hs]
    exact ⟨before, after, hss, hg⟩

end Normalized

/-- How the setup method of a class runs once the class is normalized. Its statements were those
before and those after a point, at which the static initializers now run on the class itself. -/
structure SetsUp (o : Options) (c c' : ClassDecl) (before after : List Stmt) : Prop where
  statements : before ++ after = setupStatements c.setup?
  point : SetupPoint c.type before after
  other : ∀ {ε : Type} (M : Machine ε) (running : TypeRef) (h : List ε), running.id ≠ c.type.id →
    (M.on running).run (setupStatements c'.setup?) h =
      ((M.on running).reading o.adjuster).run (setupStatements c.setup?) h
  own : ∀ {ε : Type} (M : Machine ε) (running : TypeRef) (h : List ε), running.id = c.type.id →
    let R := (M.on running).reading o.adjuster
    (M.on running).run (setupStatements c'.setup?) h =
      R.run after (R.run c.staticInitializers (R.run before h))

section Normalized

variable {o : Options}

theorem normalized_setsUp (hc : c.isInterface = false)
    (hm : Stmt.anyMayReturn (setupStatements c.setup?) = false)
    (hb : ∀ b, .block b ∈ c.members → b.isStatic = true → b.body.mayReturn = false) :
    ∃ before after, c.SetsUp o (c.normalized o) before after := by
  obtain ⟨before, after, hss, hg⟩ :=
    runsGuarded_setupWith (o := o) hm (staticInitializers_without_return hc hb)
  have hrun : ∀ {ε : Type} (M : Machine ε) (running : TypeRef) (h : List ε),
      (M.on running).run (setupStatements (c.normalized o).setup?) h =
        ((M.on running).reading o.adjuster).run
          (setupStatements (c.setupWith o c.staticInitializers c.setup?)) h := by
    intro ε M running h
    rw [setup?_normalized, preamble_ofClass hc, setupStatements_map_adjusted]
    exact congrArg Prod.fst ((M.on running).execStmts_mapStmts _ h)
  refine ⟨before, after, hss, hg.point, ?_, ?_⟩
  · intro ε M running h hr
    rw [hrun, ← hss]
    exact hg.other (M.reading o.adjuster) running h hr
  · intro ε M running h hr
    rw [hrun]
    exact hg.own (M.reading o.adjuster) running h hr

theorem staticInitializers_normalized (hc : c.isInterface = false) :
    (c.normalized o).staticInitializers = [] := by
  have hc' : (c.normalized o).isInterface = false := (isInterface_normalized o).trans hc
  rw [← preamble_ofClass hc']
  exact preamble_ofClass_normalized o

theorem declaresConstant_normalized (hc : c.isInterface = false) {f : Field}
    (hf : .field f ∈ (c.normalized o).members) (hs : f.isStatic = true)
    (hi : f.initializer.isSome = true) : f.declaresConstant = true := by
  have hn := List.filterMap_eq_nil_iff.mp (staticInitializers_normalized hc) _ hf
  obtain ⟨e, he⟩ := Option.isSome_iff_exists.mp hi
  by_contra hk
  simp [staticInitializer?, hs, hk, he] at hn

theorem isStatic_block_normalized (hc : c.isInterface = false) {b : InitBlock}
    (hb : .block b ∈ (c.normalized o).members) : b.isStatic = false := by
  have hn := List.filterMap_eq_nil_iff.mp (staticInitializers_normalized hc) _ hb
  by_contra hs
  simp [staticInitializer?, hs] at hn

theorem mem_declarations_normalized (hc : c.isInterface = false) {m : Member}
    (hm : m ∈ c.declarations) (h : ∀ side, c.moved side m = none) :
    m ∈ (c.normalized o).declarations := by
  have hu : ∀ side, c.unmoved side m = some m := fun side => unmoved_of_moved (h side)
  have hr : (c.withRoles o).isInterface = false := (isInterface_withRoles o c).trans hc
  have hlowered : m ∈ ((c.withRoles o).lowered o).declarations := by
    rw [lowered_eq o hr]
    refine mem_declarations_withEnclosingField_of_mem ?_
    have hd := declarations_withLowered ((c.withRoles o).loweringContext o)
      ((c.withRoles o).withoutPreamble .ofInstance)
    refine hd ▸ ?_
    rw [declarations_withoutPreamble, declarations_withRoles,
      unmoved_of_header (header_withRoles o c)]
    exact List.mem_filterMap.mpr ⟨m, hm, hu .ofInstance⟩
  rw [declarations_normalized, declarations_withClassSetup,
    unmoved_of_header (d := (c.withRoles o).lowered o) (c := c) (by simp)]
  exact List.mem_filterMap.mpr ⟨m, hlowered, hu .ofClass⟩

theorem mem_members_normalized_of_constant (hc : c.isInterface = false) {f : Field}
    (hf : .field f ∈ c.members) (hk : f.declaresConstant = true) :
    .field f ∈ (c.normalized o).members := by
  have hd : .field f ∈ c.declarations := List.mem_filterMap.mpr ⟨_, hf, rfl⟩
  have hstays : f.stays c = true := by rw [stays_eq hc, hk, Bool.or_true]
  exact (mem_declarations (mem_declarations_normalized hc hd fun side => by
    simp [moved, hstays])).1

/-- Normalization moves the initialization of the class into its setup method, for the class itself
and no class that inherits from it, and leaves only constants on the declarations. -/
theorem normalize_setsUp {c' : ClassDecl} {s : Summary} (hc : c.kind = .ordinary)
    (hm : ∀ m, c.setup? = some m → m.body.mayReturn = false)
    (hb : ∀ b, .block b ∈ c.members → b.isStatic = true → b.body.mayReturn = false)
    (h : c.normalize o = .ok (c', s)) :
    (∃ before after, c.SetsUp o c' before after) ∧
      (∀ b, .block b ∈ c'.members → b.isStatic = false) ∧
      (∀ f, .field f ∈ c'.members → f.isStatic = true → f.initializer.isSome = true →
        f.declaresConstant = true) ∧
      ∀ f, .field f ∈ c.members → f.declaresConstant = true → .field f ∈ c'.members := by
  obtain ⟨_, rfl, _⟩ := normalize_eq_ok_iff.mp h
  have hi : c.isInterface = false := isInterface_eq_false_iff.mpr hc
  have hm' : Stmt.anyMayReturn (setupStatements c.setup?) = false := by
    cases hs : c.setup? with
    | none => rfl
    | some m =>
      have hr := hm m hs
      rwa [Block.mayReturn_eq] at hr
  exact ⟨normalized_setsUp hi hm' hb, fun _ => isStatic_block_normalized hi,
    fun _ => declaresConstant_normalized hi, fun _ => mem_members_normalized_of_constant hi⟩

def registry : ClassDecl where
  type := ⟨⟨1⟩, "Registry"⟩
  kind := .ordinary
  superclass := none
  enclosing := []
  members := [
    .field ⟨"limit", "int", true, true, some (.int 8 .synthetic), false, .synthetic⟩,
    .field ⟨"count", "int", true, false, some (.int 1 .synthetic), false, .synthetic⟩,
    .block (.ofClass [.ofExpr (.ofText "filled")]),
    .method (.classSetup "initialize" [] [
      .classGuard ⟨⟨2⟩, "Cache"⟩ (.ofList [.ofExpr (.ofText "cached")]) .synthetic,
      .classGuard ⟨⟨1⟩, "Registry"⟩ (.ofList [.ofExpr (.ofText "opened")]) .synthetic,
      .ofExpr (.ofText "ready")])]
  span := .synthetic

theorem normalize_setsUp_registry :
    registry.kind = .ordinary ∧
      (∀ m, registry.setup? = some m → m.body.mayReturn = false) ∧
      (∀ b, .block b ∈ registry.members → b.isStatic = true → b.body.mayReturn = false) ∧
      ∃ c' s, registry.normalize .standard = .ok (c', s) ∧
        (∃ before after, registry.SetsUp .standard c' before after) ∧
        (∀ b, .block b ∈ c'.members → b.isStatic = false) ∧
        (∀ f, .field f ∈ c'.members → f.isStatic = true → f.initializer.isSome = true →
          f.declaresConstant = true) ∧
        ∀ f, .field f ∈ registry.members → f.declaresConstant = true → .field f ∈ c'.members := by
  have hm : ∀ m, registry.setup? = some m → m.body.mayReturn = false := by
    intro m hm
    cases Option.some.inj hm
    rfl
  have hb : ∀ b, .block b ∈ registry.members → b.isStatic = true → b.body.mayReturn = false := by
    simp [registry, InitBlock.ofClass, Block.ofList, Block.mayReturn, Stmt.anyMayReturn,
      Stmt.ofExpr, Stmt.mayReturn]
  have h : registry.normalize .standard =
      .ok (registry.normalized .standard, registry.changes .standard) :=
    normalize_eq_ok_iff.mpr ⟨by decide +kernel, rfl, rfl⟩
  exact ⟨rfl, hm, hb, _, _, h, normalize_setsUp rfl hm hb h⟩

end Normalized

end ClassDecl

end ExplicitInit
