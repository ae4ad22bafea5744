import ExplicitInit.Proofs.Declarations
import ExplicitInit.Proofs.DelegationChains
import Mathlib.Data.List.Forall2

namespace ExplicitInit

namespace ClassDecl

def hoisted (c : ClassDecl) : List Stmt :=
  c.instanceInitializers.map (enclosingRewriter c).mapStmt

/-- A class that declares no constructor stands for one that has the constructor of its
superclass. -/
def sourceConstructors (o : Options) (c : ClassDecl) : List Constructor :=
  match c.constructors with
  | [] =>
    [{ Constructor.ofBody o.defaultSelector []
        [.invoke ⟨.superclass, o.defaultSelector, [], .synthetic⟩] with isSynthetic := true }]
  | ks => ks

/-- The arguments of a sibling in an inner class start with the enclosing instance, which a
constructor may pass on by itself. -/
def siblingArgs (c : ClassDecl) (args : List Expr) : List Expr :=
  match c.enclosing, args with
  | [], _ => args
  | link :: _, .name x _ _ :: _ =>
    if x = link.param then args else .localVar link.param :: args
  | link :: _, _ => .localVar link.param :: args

/-- What becomes of a source constructor that allocates through its superclass by `i` and goes on
with statements `own`: the whole preamble stands between the two. -/
def Initializes (o : Options) (c : ClassDecl) (i : Invocation) (own : List Stmt)
    (k k' : Constructor) : Prop :=
  k'.body.statements =
    [.allocationGuard (o.adjuster.mapInvocation i)
      ⟨o.adjuster.mapStmts (c.enclosingInitializer ++ c.hoisted ++ own ++ [o.registration]),
        .synthetic⟩ k.span,
      .ret (some (.self .synthetic)) .synthetic] ∧
    k'.preambleLength = some (c.enclosingInitializer ++ c.hoisted).length

def Delegates (o : Options) (c : ClassDecl) (i : Invocation) (own : List Stmt)
    (k k' : Constructor) : Prop :=
  k'.body.statements = o.adjuster.mapStmts
    (if own = [] then
      [.ret (some (o.hookCall (.allocate i.callee i.selector (c.siblingArgs i.args) i.span)))
        .synthetic]
    else
      [.allocationGuard { i with args := c.siblingArgs i.args } ⟨own, .synthetic⟩ k.span,
        .ret (some (o.hookCall (.self .synthetic))) .synthetic]) ∧
    k'.preambleLength = k.preambleLength

def TakesNothing (o : Options) (k k' : Constructor) : Prop :=
  k'.body.statements = o.adjuster.mapStmts k.body.statements ∧
    k'.preambleLength = k.preambleLength

/-- How the constructor `k` of a class and the one that normalization makes of it share out the
initializers, by the statement with which `k` starts. -/
structure HoistsInto (o : Options) (c : ClassDecl) (k k' : Constructor) : Prop where
  selector : k'.selector = k.selector
  role : k'.role = some k.roleByBody
  sibling : k'.sibling? = k.sibling?
  invokes_superclass {i : Invocation} {own : List Stmt} : k.body.statements = .invoke i :: own →
    i.callee = .superclass → c.Initializes o i own k k'
  invokes_nothing : (∀ s ∈ k.body.statements.head?, s.allocation? = none) →
    (∀ i own, k.body.statements ≠ .invoke i :: own) →
    c.Initializes o ⟨.superclass, o.defaultSelector, [], .synthetic⟩ k.body.statements k k'
  invokes_sibling {i : Invocation} {own : List Stmt} : k.body.statements = .invoke i :: own →
    i.callee = .sibling → c.Delegates o i own k k'
  extends_guard {i : Invocation} {body : Block} {span : Span} {rest : List Stmt} :
    k.body.statements = .allocationGuard i body span :: rest → i.callee = .superclass →
    c.hoisted ≠ [] →
    ∃ n, k.preambleLength = some n ∧ n ≤ body.statements.length ∧
      k'.body.statements =
        .allocationGuard (o.adjuster.mapInvocation i)
          ⟨o.adjuster.mapStmts
            (body.statements.take n ++ c.hoisted ++ body.statements.drop n), body.span⟩ span ::
          o.adjuster.mapStmts rest ∧
      k'.preambleLength = some (n + c.hoisted.length)
  keeps_guard {i : Invocation} {body : Block} {span : Span} {rest : List Stmt} :
    k.body.statements = .allocationGuard i body span :: rest →
    (i.callee = .superclass → c.hoisted = []) → TakesNothing o k k'
  keeps_return {callee : Callee} {selector procedure : String} {args : List Expr}
      {span hookSpan retSpan : Span} {rest : List Stmt} :
    k.body.statements =
      .ret (some (.hook procedure (.allocate callee selector args span) hookSpan)) retSpan :: rest →
    (callee = .superclass → c.hoisted = []) ∧ TakesNothing o k k'

variable {o : Options} {c : ClassDecl}

theorem withEnclosingReads_preamble (h : c.isInterface = false) :
    c.withEnclosingReads (c.preamble .ofInstance) = c.hoisted := by
  rw [preamble_ofInstance h]
  exact Rewriter.mapStmts_eq_map c.instanceInitializers

theorem loweringContext_hoisted (h : c.isInterface = false) :
    (c.loweringContext o).hoisted = c.hoisted :=
  withEnclosingReads_preamble h

theorem loweringContext_preamble (h : c.isInterface = false) :
    (c.loweringContext o).preamble = c.enclosingAssignment ++ c.hoisted :=
  congrArg (c.enclosingAssignment ++ ·) (loweringContext_hoisted (o := o) h)

theorem hasPendingInitializer_of_hoisted (h : c.isInterface = false) (hs : c.hoisted ≠ []) :
    c.hasPendingInitializer = true := by
  rw [← Bool.not_eq_false, hasPendingInitializer_eq_false_iff h]
  intro hn
  exact hs (by rw [hoisted, hn]; rfl)

/-- Validation sees to it that what is new has a place to go. -/
theorem boundary?_of_hoisted (h : c.isInterface = false) (hb : c.boundaryFault? = none)
    (hs : c.hoisted ≠ []) {k : Constructor} (hk : k ∈ (c.withImplicitConstructor o).constructors)
    (hd : k.isDesignated = true) (hl : k.isLowered = true) : ∃ n, k.boundary? = some n := by
  rcases implicit_or_mem_constructors o h hk with rfl | hm
  · cases hl
  · exact Option.isSome_iff_exists.mp
      (boundaryFault?_eq_none_iff.mp hb (hasPendingInitializer_of_hoisted h hs) k hm hl hd)

theorem normalConstructor_statements (k : Constructor) :
    (c.normalConstructor o k).body.statements =
      o.adjuster.mapStmts (k.classified.lower (c.loweringContext o) k.roleByBody).body.statements :=
  Constructor.adjusted_statements o _

theorem normalConstructor_preambleLength (k : Constructor) :
    (c.normalConstructor o k).preambleLength =
      (k.classified.lower (c.loweringContext o) k.roleByBody).preambleLength := rfl

theorem enclosingAssignment_eq (c : ClassDecl) : c.enclosingAssignment = c.enclosingInitializer := by
  unfold enclosingAssignment enclosingInitializer
  cases c.enclosing <;> rfl

theorem forwarding_enclosingParam? (c : ClassDecl) (i : Invocation) :
    i.forwarding c.enclosingParam? = { i with args := c.siblingArgs i.args } := by
  obtain ⟨callee, selector, args, span⟩ := i
  unfold enclosingParam? siblingArgs Invocation.forwarding Invocation.passes
  cases c.enclosing with
  | nil => rfl
  | cons link outer =>
    cases args with
    | nil => rfl
    | cons e later =>
      cases e with
      | name x b s => by_cases hx : x = link.param <;> simp [Param.enclosing, hx]
      | _ => rfl

theorem sourceConstructors_eq (o : Options) (h : c.isInterface = false) :
    (c.withImplicitConstructor o).constructors = c.sourceConstructors o := by
  rw [constructors_withImplicitConstructor o h, sourceConstructors]
  cases c.constructors <;> rfl

section Normal

variable {k : Constructor}

theorem initializes_normalConstructor (h : c.isInterface = false) (hd : k.isDesignated = true)
    (hl : k.isLowered = false) :
    c.Initializes o (k.ownInvocation?.getD (.toSuperclass o.defaultSelector [])) k.ownStatements k
      (c.normalConstructor o k) := by
  have hl' : k.classified.isLowered = false := hl
  rw [Initializes, normalConstructor_statements, normalConstructor_preambleLength,
    Constructor.roleByBody_of_designated hd, Constructor.lower_designated_source _ hl',
    Constructor.lower_designated_preambleLength _ hl', loweringContext_preamble h,
    enclosingAssignment_eq]
  refine ⟨?_, rfl⟩
  simp only [Rewriter.mapStmts_cons, Rewriter.mapStmts_nil, Rewriter.mapStmt_allocationGuard,
    Rewriter.mapBlock_eq, Block.ofList, Stmt.returning, Rewriter.mapStmt_ret, Option.map_some,
    Rewriter.mapExpr_self]
  rfl

theorem delegates_normalConstructor {i : Invocation} (hd : k.isDesignated = false)
    (hl : k.isLowered = false) (hi : k.ownInvocation? = some i) :
    c.Delegates o i k.ownStatements k (c.normalConstructor o k) := by
  have hl' : k.classified.isLowered = false := hl
  rw [Delegates, normalConstructor_statements, normalConstructor_preambleLength,
    Constructor.roleByBody_of_delegating hd]
  refine ⟨?_, Constructor.lower_delegating_preambleLength _⟩
  have hf : i.forwarding (c.loweringContext o).enclosingParam =
      { i with args := c.siblingArgs i.args } := forwarding_enclosingParam? c i
  split
  · rename_i hs
    rw [Constructor.lower_delegating_bare _ hl' hi hs, hf]
    rfl
  · rename_i hs
    rw [Constructor.lower_delegating_guarded _ hl' hi hs, hf]
    rfl

theorem takesNothing_normalConstructor (h : c.isInterface = false) (hl : k.isLowered = true)
    (hn : k.isDesignated = true → c.hoisted = []) : TakesNothing o k (c.normalConstructor o k) := by
  have hl' : k.classified.isLowered = true := hl
  rw [TakesNothing, normalConstructor_statements, normalConstructor_preambleLength]
  cases hd : k.isDesignated with
  | true =>
    rw [Constructor.roleByBody_of_designated hd, Constructor.lower_designated_lowered _ hl',
      loweringContext_hoisted h, hn hd, Constructor.extendPreamble_nil]
    exact ⟨rfl, rfl⟩
  | false =>
    rw [Constructor.roleByBody_of_delegating hd, Constructor.lower_delegating_lowered _ hl']
    exact ⟨rfl, rfl⟩

theorem normalConstructor_hoistsInto (h : c.isInterface = false) (hb : c.boundaryFault? = none)
    (hk : k ∈ (c.withImplicitConstructor o).constructors) :
    c.HoistsInto o k (c.normalConstructor o k) where
  selector := normalConstructor_selector o c k
  role := normalConstructor_role o c k
  sibling := normalConstructor_sibling? o c k
  invokes_superclass {i own} hs hi := by
    have hl := Constructor.isLowered_of_invoke hs
    have hd := Constructor.isDesignated_of_superclass (Constructor.opening?_of_invoke hs) hi
    have hn := initializes_normalConstructor (o := o) h hd hl
    rwa [Constructor.ownInvocation?_of_invoke hs, Constructor.ownStatements_of_invoke hs] at hn
  invokes_nothing hs hi := by
    have hl := Constructor.isLowered_eq_false_iff.mpr hs
    have hnone := Constructor.ownInvocation?_eq_none_iff.mpr hi
    have hd : k.isDesignated = true := by
      simp [Constructor.isDesignated_iff, Constructor.opening?_of_source hl, hnone]
    have hn := initializes_normalConstructor (o := o) h hd hl
    rwa [Constructor.ownStatements_of_none hnone, hnone] at hn
  invokes_sibling {i own} hs hi := by
    have hl := Constructor.isLowered_of_invoke hs
    have hd := Constructor.isDesignated_of_sibling (Constructor.opening?_of_invoke hs) hi
    have hn := delegates_normalConstructor (c := c) (o := o) hd hl
      (Constructor.ownInvocation?_of_invoke hs)
    rwa [Constructor.ownStatements_of_invoke hs] at hn
  extends_guard {i body span rest} hs hi hne := by
    have hl := Constructor.isLowered_of_guard hs
    have hd := Constructor.isDesignated_of_superclass (Constructor.opening?_of_guard hs) hi
    obtain ⟨n, hn⟩ := boundary?_of_hoisted h hb hne hk hd hl
    obtain ⟨i', body', span', rest', hks, hp, hle⟩ := Constructor.boundary?_eq_some hn
    obtain ⟨heq, rfl⟩ := List.cons.inj (hs.symm.trans hks)
    obtain ⟨rfl, rfl, rfl⟩ := Stmt.allocationGuard.inj heq
    refine ⟨n, hp, hle, ?_⟩
    have hl' : k.classified.isLowered = true := hl
    rw [normalConstructor_statements, normalConstructor_preambleLength,
      Constructor.roleByBody_of_designated hd, Constructor.lower_designated_lowered _ hl',
      Constructor.extendPreamble_of_boundary (k := k.classified) hks hn, loweringContext_hoisted h]
    refine ⟨?_, rfl⟩
    simp [Constructor.withStatements, Rewriter.mapBlock_eq]
  keeps_guard {i body span rest} hs hi := by
    have hl := Constructor.isLowered_of_guard hs
    have ho := Constructor.opening?_of_guard hs
    exact takesNothing_normalConstructor h hl fun hd =>
      hi (Invocation.delegates_eq_false_iff.mp (Constructor.isDesignated_iff.mp hd i ho))
  keeps_return {callee selector procedure args span hookSpan retSpan rest} hs := by
    have hl : k.isLowered = true := by rw [Constructor.isLowered, hs]; rfl
    have ho : k.opening? = some ⟨callee, selector, args, span⟩ := by
      rw [Constructor.opening?, hs]
      rfl
    -- Without a guard there is no boundary, so nothing can be there to move.
    have hnil (hd : k.isDesignated = true) : c.hoisted = [] := by
      by_contra hne
      obtain ⟨n, hn⟩ := boundary?_of_hoisted h hb hne hk hd hl
      obtain ⟨_, _, _, _, hks, _⟩ := Constructor.boundary?_eq_some hn
      cases hs.symm.trans hks
    exact ⟨fun hcallee => hnil (Constructor.isDesignated_of_superclass ho hcallee),
      takesNothing_normalConstructor h hl hnil⟩

end Normal

namespace HoistsInto

variable {k k' : Constructor}

theorem designated (hh : c.HoistsInto o k k') (hd : k.isDesignated = true)
    (hl : k.isLowered = false) :
    k'.body.statements =
      [.allocationGuard
        (o.adjuster.mapInvocation (k.ownInvocation?.getD (.toSuperclass o.defaultSelector [])))
        (.ofList (o.adjuster.mapStmts
          (c.enclosingAssignment ++ c.hoisted ++ k.ownStatements ++ [o.registration]))) k.span,
        .returning (some (.self .synthetic))] ∧
      k'.preambleLength = some (c.enclosingAssignment ++ c.hoisted).length := by
  rw [enclosingAssignment_eq]
  cases hi : k.ownInvocation? with
  | none =>
    rw [Constructor.ownStatements_of_none hi]
    exact hh.invokes_nothing (Constructor.isLowered_eq_false_iff.mp hl)
      (Constructor.ownInvocation?_eq_none_iff.mp hi)
  | some i =>
    exact hh.invokes_superclass (Constructor.statements_of_ownInvocation? hi)
      (Constructor.ownInvocation?_callee hl hd hi)

theorem delegating (hh : c.HoistsInto o k k') (hd : k.isDesignated = false)
    (hl : k.isLowered = false) : k'.preambleLength = k.preambleLength ∧
    ∃ i, k.ownInvocation? = some i ∧ i.delegates = true ∧
      k'.body.statements = o.adjuster.mapStmts
        (if k.ownStatements = [] then
          [.returning (some (o.hookCall (i.forwarding c.enclosingParam?).toExpr))]
        else
          [.allocationGuard (i.forwarding c.enclosingParam?) (.ofList k.ownStatements) k.span,
            .returning (some (o.hookCall (.self .synthetic)))]) := by
  obtain ⟨i, hi, hdel⟩ := Constructor.exists_ownInvocation hl hd
  obtain ⟨hs, hn⟩ := hh.invokes_sibling (Constructor.statements_of_ownInvocation? hi)
    (Invocation.delegates_eq_true_iff.mp hdel)
  refine ⟨hn, i, hi, hdel, ?_⟩
  rw [forwarding_enclosingParam?]
  exact hs

theorem extended (hh : c.HoistsInto o k k') (hd : k.isDesignated = true)
    (hl : k.isLowered = true) (hne : c.hoisted ≠ []) :
    ∃ i body span rest n, k.body.statements = .allocationGuard i body span :: rest ∧
      k.preambleLength = some n ∧ n ≤ body.statements.length ∧
      k'.body.statements =
        .allocationGuard (o.adjuster.mapInvocation i)
          ⟨o.adjuster.mapStmts
            (body.statements.take n ++ c.hoisted ++ body.statements.drop n), body.span⟩ span ::
          o.adjuster.mapStmts rest ∧
      k'.preambleLength = some (n + c.hoisted.length) := by
  obtain ⟨i, hi, hform⟩ := Constructor.eq_of_isLowered hl
  have hcallee := Invocation.delegates_eq_false_iff.mp (Constructor.isDesignated_iff.mp hd i hi)
  obtain ⟨body, span, rest, hs⟩ | ⟨_, _, _, _, hs⟩ := hform
  · obtain ⟨n, hn⟩ := hh.extends_guard hs hcallee hne
    exact ⟨i, body, span, rest, n, hs, hn⟩
  · exact (hne ((hh.keeps_return hs).1 hcallee)).elim

theorem unextended (hh : c.HoistsInto o k k') (hl : k.isLowered = true) (hnil : c.hoisted = []) :
    TakesNothing o k k' := by
  obtain ⟨_, _, ⟨_, _, _, hs⟩ | ⟨_, _, _, _, hs⟩⟩ := Constructor.eq_of_isLowered hl
  · exact hh.keeps_guard hs fun _ => hnil
  · exact (hh.keeps_return hs).2

theorem delegating_lowered (hh : c.HoistsInto o k k') (hd : k.isDesignated = false)
    (hl : k.isLowered = true) : TakesNothing o k k' := by
  obtain ⟨i, hi, ⟨_, _, _, hs⟩ | ⟨_, _, _, _, hs⟩⟩ := Constructor.eq_of_isLowered hl
  · refine hh.keeps_guard hs fun hcallee => ?_
    obtain ⟨j, hj, hdel⟩ := Constructor.isDesignated_eq_false_iff.mp hd
    obtain rfl := Option.some.inj (hi.symm.trans hj)
    rw [Invocation.delegates_eq_true_iff.mp hdel] at hcallee
    cases hcallee
  · exact (hh.keeps_return hs).2

end HoistsInto

/-- Lowering loses, repeats and reorders no instance initializer, whether constructors are in source
form or lowered by an earlier run. -/
theorem normalize_hoists {c' : ClassDecl} {s : Summary} (hc : c.kind = .ordinary)
    (h : c.normalize o = .ok (c', s)) :
    (∃ k ∈ c'.constructors, k.isDesignated = true ∧ k.role = some .designated) ∧
      List.Forall₂ (c.HoistsInto o) (c.sourceConstructors o) c'.constructors ∧
      c'.instanceInitializers = [] := by
  obtain ⟨hf, rfl, _⟩ := normalize_eq_ok_iff.mp h
  obtain ⟨_, hd, hb, _⟩ := fault?_eq_none_iff.mp hf
  have hi : c.isInterface = false := isInterface_eq_false_iff.mpr hc
  refine ⟨?_, ?_, ?_⟩
  · obtain ⟨k, hk⟩ := List.exists_mem_of_ne_nil _ (constructors_withImplicitConstructor_ne_nil hi)
    obtain ⟨d, hm, hdes⟩ := (reachesDesignated_of_fault? o hi hd hk).exists_designated hk
    have hr : d.roleByBody = .designated := Constructor.roleByBody_of_designated hdes
    refine ⟨c.normalConstructor o d, ?_, by simpa using hdes, by simp [hr]⟩
    rw [constructors_normalized o hi]
    exact List.mem_map_of_mem hm
  · rw [constructors_normalized o hi, ← sourceConstructors_eq o hi, List.forall₂_map_right_iff,
      List.forall₂_same]
    intro k hk
    exact normalConstructor_hoistsInto hi hb hk
  · have hi' : (c.normalized o).isInterface = false := (isInterface_normalized o).trans hi
    rw [← preamble_ofInstance hi']
    exact preamble_ofInstance_normalized o hi

def partlyLowered : ClassDecl where
  type := ⟨⟨1⟩, "Counter"⟩
  kind := .ordinary
  superclass := none
  enclosing := []
  members := [
    .field { Field.ofName "total" "int" with initializer := some (.int 1 .synthetic) },
    .constructor { Constructor.ofBody "init" [] [
        .allocationGuard (.toSuperclass "init" []) (.ofList [.ofExpr (.localVar "seen")])
          .synthetic,
        .returning (some (.self .synthetic))] with preambleLength := some 0 },
    .constructor (.ofBody "initWithTotal:" [] [.ofExpr (.localVar "total")]),
    .block (.ofInstance [.ofExpr (.ofText "fresh")]),
    .constructor (.ofBody "initTwice" [] [.toSibling "initWithTotal:" []])]
  span := .synthetic

theorem normalize_hoists_partlyLowered :
    partlyLowered.kind = .ordinary ∧ ∃ c' s,
      partlyLowered.normalize .standard = .ok (c', s) ∧
      (∃ k ∈ c'.constructors, k.isDesignated = true ∧ k.role = some .designated) ∧
      List.Forall₂ (partlyLowered.HoistsInto .standard)
        (partlyLowered.sourceConstructors .standard) c'.constructors ∧
      c'.instanceInitializers = [] := by
  have h : partlyLowered.normalize .standard =
      .ok (partlyLowered.normalized .standard, partlyLowered.changes .standard) :=
    normalize_eq_ok_iff.mpr ⟨by decide +kernel, rfl, rfl⟩
  exact ⟨rfl, _, _, h, normalize_hoists rfl h⟩

end ClassDecl

end ExplicitInit
