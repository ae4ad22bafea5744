import ExplicitInit.Proofs.Hoisting
import ExplicitInit.Proofs.SourceForms

namespace ExplicitInit

structure Frame (σ ν : Type) where
  memory : σ
  self : ν
  registered : List (String × ν)
deriving DecidableEq

namespace Frame

variable {σ ν : Type}

def register (fr : Frame σ ν) (procedure : String) (value : ν) : Frame σ ν :=
  { fr with registered := fr.registered ++ [(procedure, value)] }

def Keeps (fr fr' : Frame σ ν) : Prop :=
  fr'.self = fr.self ∧ fr'.registered = fr.registered

theorem Keeps.refl (fr : Frame σ ν) : fr.Keeps fr := ⟨rfl, rfl⟩

theorem Keeps.trans {fr₁ fr₂ fr₃ : Frame σ ν} (h : fr₁.Keeps fr₂) (h' : fr₂.Keeps fr₃) :
    fr₁.Keeps fr₃ :=
  ⟨h'.1.trans h.1, h'.2.trans h.2⟩

end Frame

inductive Completion (ν : Type) where
  | fell
  | returned (value : Option ν)
deriving DecidableEq

/-- A way to run bodies. What it does with memory is left open; a tree of the source calls no hook
and does not replace the instance. -/
structure Runtime (σ ν : Type) where
  evaluate : Expr → Frame σ ν → ν × Frame σ ν
  holds : ν → Bool
  declare : (name type : String) → Option ν → σ → σ
  invoke : Invocation → Frame σ ν → Frame σ ν
  allocate : Invocation → Frame σ ν → ν × Frame σ ν
  isInstance : ν → Bool
  isExactly : TypeRef → Bool
  evaluate_self : ∀ (s : Span) (fr : Frame σ ν), evaluate (.self s) fr = (fr.self, fr)
  evaluate_allocate : ∀ (i : Invocation) (fr : Frame σ ν), evaluate i.toExpr fr = allocate i fr
  evaluate_hook : ∀ (procedure : String) (a : Expr) (s : Span) (fr : Frame σ ν),
    evaluate (.hook procedure a s) fr =
      ((evaluate a fr).1, (evaluate a fr).2.register procedure (evaluate a fr).1)
  evaluate_source : ∀ (e : Expr) (fr : Frame σ ν), e.isSource = true → fr.Keeps (evaluate e fr).2
  invoke_source : ∀ (i : Invocation) (fr : Frame σ ν), i.isSource = true → fr.Keeps (invoke i fr)
  allocate_source : ∀ (i : Invocation) (fr : Frame σ ν),
    i.isSource = true → fr.Keeps (allocate i fr).2

namespace Runtime

variable {σ ν : Type} (R : Runtime σ ν)

def allocated (i : Invocation) (fr : Frame σ ν) : Frame σ ν :=
  { (R.allocate i fr).2 with self := (R.allocate i fr).1 }

mutual

def execStmt : Stmt → Frame σ ν → Frame σ ν × Completion ν
  | .expr e _, fr => ((R.evaluate e fr).2, .fell)
  | .block b, fr => execBlock b fr
  | .declare x type none _, fr => ({ fr with memory := R.declare x type none fr.memory }, .fell)
  | .declare x type (some e) _, fr =>
    let r := R.evaluate e fr
    ({ r.2 with memory := R.declare x type (some r.1) r.2.memory }, .fell)
  | .ite c t none _, fr =>
    let r := R.evaluate c fr
    if R.holds r.1 then execStmt t r.2 else (r.2, .fell)
  | .ite c t (some e) _, fr =>
    let r := R.evaluate c fr
    if R.holds r.1 then execStmt t r.2 else execStmt e r.2
  | .ret none _, fr => (fr, .returned none)
  | .ret (some e) _, fr => ((R.evaluate e fr).2, .returned (some (R.evaluate e fr).1))
  | .invoke i, fr => (R.invoke i fr, .fell)
  | .allocationGuard i b _, fr =>
    if R.isInstance (R.allocate i fr).1 then execBlock b (R.allocated i fr)
    else (R.allocated i fr, .fell)
  | .classGuard type b _, fr => if R.isExactly type then execBlock b fr else (fr, .fell)

def execStmts : List Stmt → Frame σ ν → Frame σ ν × Completion ν
  | [], fr => (fr, .fell)
  | s :: ss, fr =>
    match execStmt s fr with
    | (fr', .fell) => execStmts ss fr'
    | (fr', .returned value) => (fr', .returned value)

def execBlock : Block → Frame σ ν → Frame σ ν × Completion ν
  | ⟨statements, _⟩, fr => execStmts statements fr

end

theorem execStmts_append (ss ts : List Stmt) (fr : Frame σ ν) :
    R.execStmts (ss ++ ts) fr =
      match R.execStmts ss fr with
      | (fr', .fell) => R.execStmts ts fr'
      | (fr', .returned value) => (fr', .returned value) := by
  induction ss generalizing fr with
  | nil => rfl
  | cons s ss ih =>
    rw [List.cons_append]
    simp only [execStmts]
    split
    · exact ih _
    · rfl

def ending (ss : List Stmt) (fr : Frame σ ν) : Completion ν :=
  (R.execStmts ss fr).2

section Source

mutual

theorem keeps_execStmt : (s : Stmt) → s.isSource = true → (fr : Frame σ ν) →
    fr.Keeps (R.execStmt s fr).1
  | .expr e _, h, fr => R.evaluate_source e fr h
  | .block b, h, fr => keeps_execBlock b h fr
  | .declare _ _ none _, _, _ | .ret none _, _, _ => ⟨rfl, rfl⟩
  | .declare _ _ (some e) _, h, fr | .ret (some e) _, h, fr => R.evaluate_source e fr h
  | .ite c t none _, h, fr => by
    obtain ⟨hc, ht⟩ := Bool.and_eq_true_iff.mp h
    have hk := R.evaluate_source c fr hc
    rw [execStmt]
    split
    · exact hk.trans (keeps_execStmt t ht _)
    · exact hk
  | .ite c t (some e) _, h, fr => by
    obtain ⟨hct, he⟩ := Bool.and_eq_true_iff.mp h
    obtain ⟨hc, ht⟩ := Bool.and_eq_true_iff.mp hct
    have hk := R.evaluate_source c fr hc
    rw [execStmt]
    split
    · exact hk.trans (keeps_execStmt t ht _)
    · exact hk.trans (keeps_execStmt e he _)
  | .invoke i, h, fr => R.invoke_source i fr h
  | .classGuard type b _, h, fr => by
    rw [execStmt]
    split
    · exact keeps_execBlock b h fr
    · exact .refl fr

theorem keeps_execStmts : (ss : List Stmt) → Stmt.allSource ss = true → (fr : Frame σ ν) →
    fr.Keeps (R.execStmts ss fr).1
  | [], _, fr => .refl fr
  | s :: ss, h, fr => by
    obtain ⟨hs, hss⟩ := Bool.and_eq_true_iff.mp h
    have hk := keeps_execStmt s hs fr
    rw [execStmts]
    split
    · rename_i fr' he
      rw [he] at hk
      exact hk.trans (keeps_execStmts ss hss fr')
    -- A return skips the rest of the statements.
    · rename_i fr' value he
      rw [he] at hk
      exact hk

theorem keeps_execBlock : (b : Block) → b.isSource = true → (fr : Frame σ ν) →
    fr.Keeps (R.execBlock b fr).1
  | ⟨statements, _⟩, h, fr => keeps_execStmts statements h fr

end

end Source

/-- The body calls the memory hook once, on the instance, and returns the instance. -/
def Registers (o : Options) (body : List Stmt) (fr : Frame σ ν) (value : ν) : Prop :=
  ∃ fr', R.execStmts body fr = (fr', .returned (some value)) ∧
    fr'.registered = fr.registered ++ [(o.memoryHook, value)]

end Runtime

namespace ClassDecl

def allocationOf (o : Options) (c : ClassDecl) (k : Constructor) : Invocation :=
  let i := k.ownInvocation?.getD ⟨.superclass, o.defaultSelector, [], .synthetic⟩
  o.adjuster.mapInvocation
    (if k.isDesignated then i else { i with args := c.siblingArgs i.args })

/-- What a lowered constructor runs of the source once it has allocated. -/
def sourcePart (o : Options) (c : ClassDecl) (k : Constructor) : List Stmt :=
  o.adjuster.mapStmts
    (if k.isDesignated then c.enclosingInitializer ++ c.hoisted ++ k.ownStatements
    else k.ownStatements)

structure Completes {σ ν : Type} (R : Runtime σ ν) (o : Options) (c : ClassDecl) (k : Constructor)
    (fr : Frame σ ν) : Prop where
  allocates : R.isInstance (R.allocate (c.allocationOf o k) fr).1 = true
  returnsNothing : ∀ value, R.ending (c.sourcePart o k) (R.allocated (c.allocationOf o k) fr) ≠
    .returned (some value)

/-- How the lowered constructor `k'` of a source constructor `k` registers what it allocates. -/
structure RegistersBy {σ ν : Type} (R : Runtime σ ν) (o : Options) (c : ClassDecl)
    (k k' : Constructor) : Prop where
  registers_iff (fr : Frame σ ν) : c.Completes R o k fr →
    (R.Registers o k'.body.statements fr (R.allocate (c.allocationOf o k) fr).1 ↔
      R.ending (c.sourcePart o k) (R.allocated (c.allocationOf o k) fr) = .fell)
  /-- A bare return skips the hook and leaves the caller without the instance. -/
  skips (fr : Frame σ ν) : c.Completes R o k fr →
    R.ending (c.sourcePart o k) (R.allocated (c.allocationOf o k) fr) ≠ .fell →
    ∃ fr', R.execStmts k'.body.statements fr = (fr', .returned none) ∧
      fr'.registered = fr.registered

end ClassDecl

section Lowered

variable {σ ν : Type} {R : Runtime σ ν} {o : Options} {fr fr₁ : Frame σ ν} {i : Invocation}
  {part : List Stmt} {value : Option ν} {sp : Span}

namespace Runtime

theorem execStmts_guard_of_fell (ha : R.isInstance (R.allocate i fr).1 = true)
    (hp : R.execStmts part (R.allocated i fr) = (fr₁, .fell)) (more rest : List Stmt) :
    R.execStmts (.allocationGuard i (.ofList (part ++ more)) sp :: rest) fr =
      R.execStmts (more ++ rest) fr₁ := by
  rw [execStmts, execStmt, if_pos ha, Block.ofList, execBlock, R.execStmts_append, hp,
    R.execStmts_append]

theorem execStmts_guard_of_returned (ha : R.isInstance (R.allocate i fr).1 = true)
    (hp : R.execStmts part (R.allocated i fr) = (fr₁, .returned value)) (more rest : List Stmt) :
    R.execStmts (.allocationGuard i (.ofList (part ++ more)) sp :: rest) fr =
      (fr₁, .returned value) := by
  rw [execStmts, execStmt, if_pos ha, Block.ofList, execBlock, R.execStmts_append, hp]

theorem execStmts_returning (e : Expr) (fr : Frame σ ν) :
    R.execStmts [.returning (some e)] fr =
      ((R.evaluate e fr).2, .returned (some (R.evaluate e fr).1)) := rfl

theorem registers_returning_hook (e : Expr) (fr : Frame σ ν)
    (he : (R.evaluate e fr).2.registered = fr.registered) :
    R.Registers o [.returning (some (o.hookCall e))] fr (R.evaluate e fr).1 := by
  refine ⟨(R.evaluate e fr).2.register o.memoryHook (R.evaluate e fr).1, ?_, ?_⟩
  · rw [R.execStmts_returning, Options.hookCall, R.evaluate_hook]
  · rw [Frame.register, he]

theorem registers_returning_hook_self (fr : Frame σ ν) :
    R.Registers o [.returning (some (o.hookCall (.self .synthetic)))] fr fr.self := by
  have h := R.evaluate_self .synthetic fr
  have hr := R.registers_returning_hook (o := o) (.self .synthetic) fr (by rw [h])
  rwa [h] at hr

theorem registers_registration (fr : Frame σ ν) :
    R.Registers o [o.registration, .returning (some (.self .synthetic))] fr fr.self := by
  refine ⟨fr.register o.memoryHook fr.self, ?_, rfl⟩
  rw [Options.registration, Options.hookCall, execStmts, execStmt, R.evaluate_hook,
    R.evaluate_self]
  refine (R.execStmts_returning _ _).trans ?_
  rw [R.evaluate_self]
  rfl

end Runtime

end Lowered

section Source

variable {o : Options} {c : ClassDecl} {k : Constructor} {i : Invocation}

theorem Invocation.isSource_forwarding (h : i.isSource = true) (p : Option Param) :
    (i.forwarding p).isSource = true := by
  unfold forwarding
  split
  · exact h
  · split
    · exact h
    · exact h

namespace Constructor

theorem isSource_ownInvocation (h : k.body.isSource = true) (hi : k.ownInvocation? = some i) :
    i.isSource = true := by
  rw [Block.isSource_eq, statements_of_ownInvocation? hi] at h
  exact (Bool.and_eq_true_iff.mp h).1

theorem allSource_ownStatements (h : k.body.isSource = true) :
    Stmt.allSource k.ownStatements = true := by
  rw [Block.isSource_eq] at h
  cases hi : k.ownInvocation? with
  | none => rwa [ownStatements_of_none hi]
  | some i =>
    rw [statements_of_ownInvocation? hi] at h
    exact (Bool.and_eq_true_iff.mp h).2

end Constructor

namespace ClassDecl

theorem isSource_allocationOf (o : Options) (c : ClassDecl) (h : k.body.isSource = true) :
    (c.allocationOf o k).isSource = true := by
  have hi : (k.ownInvocation?.getD ⟨.superclass, o.defaultSelector, [], .synthetic⟩).isSource =
      true := by
    cases hk : k.ownInvocation? with
    | none => rfl
    | some i => exact k.isSource_ownInvocation h hk
  refine Rewriter.isSource_mapInvocation (adjuster_keepsSource o) ?_
  split
  · exact hi
  · rw [← forwarding_enclosingParam?]
    exact Invocation.isSource_forwarding hi _

theorem allSource_enclosingInitializer (c : ClassDecl) :
    Stmt.allSource c.enclosingInitializer = true := by
  unfold enclosingInitializer
  cases c.enclosing <;> rfl

theorem allSource_sourcePart (o : Options) (hs : Stmt.allSource c.instanceInitializers = true)
    (h : k.body.isSource = true) : Stmt.allSource (c.sourcePart o k) = true := by
  have hh : Stmt.allSource c.hoisted = true := by
    rw [hoisted, ← Rewriter.mapStmts_eq_map]
    exact Rewriter.allSource_mapStmts (enclosingRewriter_keepsSource c) _ hs
  refine Rewriter.allSource_mapStmts (adjuster_keepsSource o) _ ?_
  split
  · rw [Stmt.allSource_append, Stmt.allSource_append, c.allSource_enclosingInitializer, hh,
      k.allSource_ownStatements h]
    rfl
  · exact k.allSource_ownStatements h

end ClassDecl

end Source

namespace ClassDecl

variable {σ ν : Type} {R : Runtime σ ν} {o : Options} {c : ClassDecl} {k k' : Constructor}

section Completes

variable {fr : Frame σ ν} (hc : c.Completes R o k fr) (hi : (c.allocationOf o k).isSource = true)
  (hp : Stmt.allSource (c.sourcePart o k) = true)

include hi hp

theorem exists_fell
    (hf : R.ending (c.sourcePart o k) (R.allocated (c.allocationOf o k) fr) = .fell) :
    ∃ fr₁, R.execStmts (c.sourcePart o k) (R.allocated (c.allocationOf o k) fr) = (fr₁, .fell) ∧
      fr₁.self = (R.allocate (c.allocationOf o k) fr).1 ∧ fr₁.registered = fr.registered := by
  obtain ⟨hself, hreg⟩ := R.keeps_execStmts _ hp (R.allocated (c.allocationOf o k) fr)
  exact ⟨_, Prod.ext rfl hf, hself, hreg.trans (R.allocate_source _ fr hi).2⟩

include hc in
theorem Completes.exists_returned
    (hf : R.ending (c.sourcePart o k) (R.allocated (c.allocationOf o k) fr) ≠ .fell) :
    ∃ fr₁, R.execStmts (c.sourcePart o k) (R.allocated (c.allocationOf o k) fr) =
      (fr₁, .returned none) ∧ fr₁.registered = fr.registered := by
  obtain ⟨_, hreg⟩ := R.keeps_execStmts _ hp (R.allocated (c.allocationOf o k) fr)
  refine ⟨_, Prod.ext rfl ?_, hreg.trans (R.allocate_source _ fr hi).2⟩
  match he : R.ending (c.sourcePart o k) (R.allocated (c.allocationOf o k) fr) with
  | .fell => exact absurd he hf
  | .returned (some value) => exact absurd he (hc.returnsNothing value)
  | .returned none => exact he

end Completes

theorem RegistersBy.of_guard (more rest : List Stmt) (sp : Span)
    (hi : (c.allocationOf o k).isSource = true) (hp : Stmt.allSource (c.sourcePart o k) = true)
    (hm : ∀ fr, R.Registers o (more ++ rest) fr fr.self)
    (hk : k'.body.statements =
      .allocationGuard (c.allocationOf o k) (.ofList (c.sourcePart o k ++ more)) sp :: rest) :
    c.RegistersBy R o k k' := by
  have hskip (fr : Frame σ ν) (hc : c.Completes R o k fr)
      (hf : R.ending (c.sourcePart o k) (R.allocated (c.allocationOf o k) fr) ≠ .fell) :
      ∃ fr', R.execStmts k'.body.statements fr = (fr', .returned none) ∧
        fr'.registered = fr.registered := by
    obtain ⟨fr₁, he, hreg⟩ := hc.exists_returned hi hp hf
    refine ⟨fr₁, ?_, hreg⟩
    rw [hk]
    exact Runtime.execStmts_guard_of_returned hc.allocates he more rest
  refine ⟨fun fr hc => ⟨fun ⟨fr', hb, _⟩ => ?_, fun hf => ?_⟩, hskip⟩
  -- A body that returns nothing does not return the instance.
  · by_contra hf
    obtain ⟨fr₁, hn, _⟩ := hskip fr hc hf
    rw [hb] at hn
    cases hn
  · obtain ⟨fr₁, he, hself, hreg⟩ := exists_fell hi hp hf
    have hr := hm fr₁
    rw [hself] at hr
    unfold Runtime.Registers at hr ⊢
    rwa [hk, Runtime.execStmts_guard_of_fell hc.allocates he, ← hreg]

theorem RegistersBy.of_return (hi : (c.allocationOf o k).isSource = true)
    (hp : c.sourcePart o k = [])
    (hk : k'.body.statements = [.returning (some (o.hookCall (c.allocationOf o k).toExpr))]) :
    c.RegistersBy R o k k' := by
  have hf (fr : Frame σ ν) :
      R.ending (c.sourcePart o k) (R.allocated (c.allocationOf o k) fr) = .fell := by
    rw [hp]
    rfl
  refine ⟨fun fr _ => iff_of_true ?_ (hf fr), fun fr _ hn => absurd (hf fr) hn⟩
  have ha := R.evaluate_allocate (c.allocationOf o k) fr
  have hr := R.registers_returning_hook (o := o) (c.allocationOf o k).toExpr fr
    (by rw [ha]; exact (R.allocate_source _ fr hi).2)
  rw [hk]
  rwa [ha] at hr

theorem registersBy_of_hoistsInto (R : Runtime σ ν)
    (hs : Stmt.allSource c.instanceInitializers = true) (hl : k.isLowered = false)
    (h : k.body.isSource = true) (hh : c.HoistsInto o k k') : c.RegistersBy R o k k' := by
  have hi := isSource_allocationOf o c h
  have hp := allSource_sourcePart o hs h
  cases hd : k.isDesignated with
  | true =>
    refine .of_guard [o.registration] [.returning (some (.self .synthetic))] k.span hi hp
      R.registers_registration ?_
    rw [(hh.designated hd hl).1, allocationOf, sourcePart, if_pos hd, if_pos hd,
      enclosingAssignment_eq, Rewriter.mapStmts_append _ [o.registration],
      Rewriter.mapStmts_registration]
    rfl
  | false =>
    obtain ⟨_, i, hki, _, hk⟩ := hh.delegating hd hl
    have ha : o.adjuster.mapInvocation (i.forwarding c.enclosingParam?) = c.allocationOf o k := by
      rw [forwarding_enclosingParam?, allocationOf, hki, hd]
      rfl
    have hpart : o.adjuster.mapStmts k.ownStatements = c.sourcePart o k := by
      rw [sourcePart, hd]
      rfl
    -- Without statements of its own the constructor has no guard.
    by_cases hn : k.ownStatements = []
    · refine .of_return hi (by rw [← hpart, hn]; rfl) ?_
      rw [hk, if_pos hn, ← ha, Rewriter.mapStmts_returning_hook, Rewriter.mapExpr_toExpr]
    · refine .of_guard [] [.returning (some (o.hookCall (.self .synthetic)))] k.span hi hp
        R.registers_returning_hook_self ?_
      rw [hk, if_neg hn, List.append_nil, ← ha, ← hpart, Rewriter.mapStmts_cons,
        Rewriter.mapStmt_allocationGuard, Rewriter.mapBlock_eq, Rewriter.mapStmts_returning_hook,
        Rewriter.mapExpr_self]
      rfl

/-- A constructor that is lowered registers and returns what it allocates where its source part
falls off its end, and only there. -/
theorem normalize_registers {c' : ClassDecl} {s : Summary} (R : Runtime σ ν)
    (hs : Stmt.allSource c.instanceInitializers = true) (h : c.normalize o = .ok (c', s)) :
    List.Forall₂ (fun k k' => k.isLowered = false → k.body.isSource = true →
      c.RegistersBy R o k k') (c.withImplicitConstructor o).constructors c'.constructors := by
  obtain ⟨hf, rfl, _⟩ := normalize_eq_ok_iff.mp h
  obtain ⟨hi, _, hb, _⟩ := fault?_eq_none_iff.mp hf
  cases hc : c.isInterface with
  | true =>
    have hk := interfaceFault?_eq_none_iff.mp hi hc
    have hw : c.withImplicitConstructor o = c := by
      simp [withImplicitConstructor, lacksConstructor, hc]
    rw [constructors_normalized_of_interface hc, hw, hk]
    exact .nil
  | false =>
    rw [constructors_normalized o hc, List.forall₂_map_right_iff, List.forall₂_same]
    intro k hk hl hsource
    exact registersBy_of_hoistsInto R hs hl hsource (normalConstructor_hoistsInto hc hb hk)

end ClassDecl

namespace Runtime

def evaluateFlag : Expr → Frame Bool Bool → Bool × Frame Bool Bool
  | .self _, fr => (fr.self, fr)
  | .hook procedure a _, fr =>
    let r := evaluateFlag a fr
    (r.1, r.2.register procedure r.1)
  | .name .., fr => (fr.memory, fr)
  | _, fr => (true, fr)

def flag : Runtime Bool Bool where
  evaluate := evaluateFlag
  holds := id
  declare _ _ _ memory := memory
  invoke _ fr := fr
  allocate _ fr := (true, fr)
  isInstance := id
  isExactly _ := true
  evaluate_self _ _ := rfl
  evaluate_allocate _ _ := rfl
  evaluate_hook _ _ _ _ := rfl
  evaluate_source e fr h := by
    cases e with
    | hook => cases h
    | _ => exact .refl fr
  invoke_source _ fr _ := .refl fr
  allocate_source _ fr _ := .refl fr

end Runtime

namespace ClassDecl

def earlyConstructor : Constructor :=
  .ofBody "initEmpty:" [] [
    .toSuperclass "init" [],
    .ite (.localVar "empty") (.returning none) none .synthetic,
    .ofExpr (.localVar "items")]

def earlyReturn : ClassDecl where
  type := ⟨⟨1⟩, "Basket"⟩
  kind := .ordinary
  superclass := none
  enclosing := []
  members := [
    .field { Field.ofName "size" "int" with initializer := some (.int 0 .synthetic) },
    .constructor earlyConstructor]
  span := .synthetic

theorem normalize_registers_earlyReturn :
    Stmt.allSource earlyReturn.instanceInitializers = true ∧ ∃ c' s k',
      earlyReturn.normalize .standard = .ok (c', s) ∧ c'.constructors = [k'] ∧
      earlyReturn.RegistersBy .flag .standard earlyConstructor k' ∧
      Runtime.flag.Registers .standard k'.body.statements ⟨false, false, []⟩ true := by
  have h : earlyReturn.normalize .standard =
      .ok (earlyReturn.normalized .standard, earlyReturn.changes .standard) :=
    normalize_eq_ok_iff.mpr ⟨by decide +kernel, rfl, rfl⟩
  obtain ⟨k', rest, hr, hn, hk⟩ :=
    List.forall₂_cons_left_iff.mp (normalize_registers .flag rfl h)
  have hreg := hr rfl (by decide +kernel)
  have hc : earlyReturn.Completes .flag .standard earlyConstructor ⟨false, false, []⟩ :=
    ⟨rfl, by decide +kernel⟩
  refine ⟨rfl, _, _, k', h, ?_, hreg, (hreg.registers_iff _ hc).mpr (by decide +kernel)⟩
  rw [hk, List.forall₂_nil_left_iff.mp hn]

/-- Where the condition holds, the constructor completes without registration. -/
theorem not_registers_earlyReturn :
    earlyReturn.normalize .standard =
      .ok (earlyReturn.normalized .standard, earlyReturn.changes .standard) ∧
    earlyReturn.constructors = [earlyConstructor] ∧ earlyConstructor.isLowered = false ∧
    earlyReturn.Completes .flag .standard earlyConstructor ⟨true, false, []⟩ ∧
    ∀ k' ∈ (earlyReturn.normalized .standard).constructors,
      ¬Runtime.flag.Registers .standard k'.body.statements ⟨true, false, []⟩ true := by
  refine ⟨normalize_eq_ok_iff.mpr ⟨by decide +kernel, rfl, rfl⟩, rfl, rfl, ⟨rfl, ?_⟩, ?_⟩
  · decide +kernel
  · have h : ∀ k' ∈ (earlyReturn.normalized .standard).constructors,
        Runtime.flag.execStmts k'.body.statements ⟨true, false, []⟩ =
          (⟨true, true, []⟩, .returned none) := by
      decide +kernel
    rintro k' hk ⟨fr', hb, _⟩
    rw [h k' hk] at hb
    cases hb

end ClassDecl

end ExplicitInit
