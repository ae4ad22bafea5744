import ExplicitInit.Proofs.Execution
import ExplicitInit.Proofs.Hoisting
import Mathlib.Data.List.Nodup

namespace ExplicitInit

namespace Machine

variable {ε : Type} (M : Machine ε)

def registered (o : Options) (h : List ε) : List ε :=
  h ++ [M.register o.memoryHook]

/-- The instance initializers in the order of declaration. In an inner class they may read the
enclosing instance, which is kept first. -/
def runInitializers (c : ClassDecl) (h : List ε) : List ε :=
  (M.reading (enclosingRewriter c)).run c.instanceInitializers (M.run c.enclosingInitializer h)

end Machine

/-- Construction by a constructor in source form, with the events before and after. What it invokes
and what it runs afterwards is told from the first statement of its body. -/
inductive Constructs {ε : Type} (M : Machine ε) (o : Options) (c : ClassDecl) :
    Constructor → List ε → List ε → Prop
  | superclass {k : Constructor} {i : Invocation} {own : List Stmt} {h : List ε}
      (hk : k.body.statements = .invoke i :: own) (hi : i.callee = .superclass) :
    Constructs M o c k h
      (M.registered o (M.run own (M.runInitializers c (h ++ M.invoke h i))))
  | implicit {k : Constructor} {h : List ε} (hk : ∀ i own, k.body.statements ≠ .invoke i :: own) :
    Constructs M o c k h
      (M.registered o (M.run k.body.statements (M.runInitializers c
        (h ++ M.invoke h ⟨.superclass, o.defaultSelector, [], .synthetic⟩))))
  | sibling {k next : Constructor} {i : Invocation} {own : List Stmt} {h t : List ε}
      (hk : k.body.statements = .invoke i :: own) (hi : i.callee = .sibling)
      (hm : next ∈ c.sourceConstructors o) (hs : next.selector = i.selector)
      (hr : Constructs M o c next (h ++ M.invoke h { i with args := c.siblingArgs i.args }) t) :
    Constructs M o c k h (M.registered o (M.run own t))

namespace Stmt

def afterAllocation : Stmt → Stmt
  | .allocationGuard _ b _ => .block b
  | .ret (some (.hook procedure a hookSpan)) s =>
    .ret (some (.hook procedure (.self a.span) hookSpan)) s
  | s => s

end Stmt

/-- A run of the body of a lowered constructor, with the events before and after. An allocation by a
sibling runs the body of the sibling, and every allocation is taken to give an instance. -/
inductive Runs {ε : Type} (M : Machine ε) (all : List Constructor) :
    List Stmt → List ε → List ε → Prop
  | nil {h : List ε} : Runs M all [] h h
  | completed {s : Stmt} {rest : List Stmt} {h h' t : List ε} (ha : s.allocation? = none)
      (hs : M.execStmt s h = (h', .completed)) (hr : Runs M all rest h' t) :
    Runs M all (s :: rest) h t
  | returned {s : Stmt} {rest : List Stmt} {h t : List ε} (ha : s.allocation? = none)
      (hs : M.execStmt s h = (t, .returned)) : Runs M all (s :: rest) h t
  | superclass {s : Stmt} {rest : List Stmt} {i : Invocation} {h t : List ε}
      (ha : s.allocation? = some i) (hi : i.callee = .superclass)
      (hr : Runs M all (s.afterAllocation :: rest) (h ++ M.invoke h i) t) :
    Runs M all (s :: rest) h t
  | sibling {s : Stmt} {rest : List Stmt} {i : Invocation} {k : Constructor} {h h' t : List ε}
      (ha : s.allocation? = some i) (hi : i.callee = .sibling) (hk : k ∈ all)
      (hs : k.selector = i.selector)
      (hb : Runs M all k.body.statements (h ++ M.invoke h i) h')
      (hr : Runs M all (s.afterAllocation :: rest) h' t) :
    Runs M all (s :: rest) h t

section Runs

variable {ε : Type} {M : Machine ε} {all : List Constructor} {s : Stmt} {rest : List Stmt}
  {i : Invocation} {h t : List ε}

theorem runs_cons_completed_iff {h' : List ε} (ha : s.allocation? = none)
    (hs : M.execStmt s h = (h', .completed)) :
    Runs M all (s :: rest) h t ↔ Runs M all rest h' t := by
  constructor
  · intro hr
    cases hr with
    | completed _ hs' hr =>
      rw [hs] at hs'
      cases hs'
      exact hr
    | returned _ hs' => rw [hs] at hs'; cases hs'
    | superclass ha' => rw [ha] at ha'; cases ha'
    | sibling ha' => rw [ha] at ha'; cases ha'
  · exact .completed ha hs

theorem runs_cons_returned_iff {h' : List ε} (ha : s.allocation? = none)
    (hs : M.execStmt s h = (h', .returned)) : Runs M all (s :: rest) h t ↔ t = h' := by
  constructor
  · intro hr
    cases hr with
    | completed _ hs' => rw [hs] at hs'; cases hs'
    | returned _ hs' =>
      rw [hs] at hs'
      cases hs'
      rfl
    | superclass ha' => rw [ha] at ha'; cases ha'
    | sibling ha' => rw [ha] at ha'; cases ha'
  · rintro rfl
    exact .returned ha hs

theorem runs_superclass_iff (ha : s.allocation? = some i) (hi : i.callee = .superclass) :
    Runs M all (s :: rest) h t ↔ Runs M all (s.afterAllocation :: rest) (h ++ M.invoke h i) t := by
  constructor
  · intro hr
    cases hr with
    | completed ha' => rw [ha] at ha'; cases ha'
    | returned ha' => rw [ha] at ha'; cases ha'
    | superclass ha' _ hr =>
      rw [ha] at ha'
      cases ha'
      exact hr
    | sibling ha' hi' =>
      rw [ha] at ha'
      cases ha'
      rw [hi] at hi'
      cases hi'
  · exact .superclass ha hi

theorem runs_sibling_iff (ha : s.allocation? = some i) (hi : i.callee = .sibling) :
    Runs M all (s :: rest) h t ↔ ∃ k ∈ all, k.selector = i.selector ∧
      ∃ h', Runs M all k.body.statements (h ++ M.invoke h i) h' ∧
        Runs M all (s.afterAllocation :: rest) h' t := by
  constructor
  · intro hr
    cases hr with
    | completed ha' => rw [ha] at ha'; cases ha'
    | returned ha' => rw [ha] at ha'; cases ha'
    | superclass ha' hi' =>
      rw [ha] at ha'
      cases ha'
      rw [hi] at hi'
      cases hi'
    | sibling ha' _ hk hs hb hr =>
      rw [ha] at ha'
      cases ha'
      exact ⟨_, hk, hs, _, hb, hr⟩
  · rintro ⟨k, hk, hs, h', hb, hr⟩
    exact .sibling ha hi hk hs hb hr

theorem runs_block_iff {ss : List Stmt} {sp : Span} {h' : List ε}
    (hs : M.execStmts ss h = (h', .completed)) :
    Runs M all (.block ⟨ss, sp⟩ :: rest) h t ↔ Runs M all rest h' t :=
  runs_cons_completed_iff rfl hs

theorem runs_returning_self_iff (sp sp' : Span) :
    Runs M all (.ret (some (.self sp)) sp' :: rest) h t ↔ t = h := by
  refine runs_cons_returned_iff rfl ?_
  rw [Machine.execStmt, M.evaluate_self, List.append_nil]

theorem runs_returning_registered_iff {procedure : String} (sp sp' sp'' : Span) :
    Runs M all (.ret (some (.hook procedure (.self sp) sp')) sp'' :: rest) h t ↔
      t = h ++ [M.register procedure] := by
  refine runs_cons_returned_iff rfl ?_
  rw [Machine.execStmt, M.evaluate_hook, M.evaluate_self, List.nil_append]

end Runs

namespace Machine

variable {ε : Type} {M : Machine ε} {o : Options} {c : ClassDecl}

/-- What a lowered designated constructor guards is the initialization of the instance, the
statements of its own and the registration. -/
theorem execStmts_guarded {own : List Stmt} (hi : Stmt.anyMayReturn c.instanceInitializers = false)
    (ho : Stmt.anyMayReturn own = false) (h : List ε) :
    M.execStmts (c.enclosingInitializer ++ c.hoisted ++ own ++ [o.registration]) h =
      (M.registered o (M.run own (M.runInitializers c h)), .completed) := by
  have ha : Stmt.anyMayReturn c.enclosingInitializer = false := by
    unfold ClassDecl.enclosingInitializer
    cases c.enclosing <;> rfl
  have hh : M.execStmts c.hoisted (M.run c.enclosingInitializer h) =
      (M.runInitializers c h, .completed) := by
    rw [ClassDecl.hoisted, ← Rewriter.mapStmts_eq_map, M.execStmts_mapStmts]
    exact (M.reading (enclosingRewriter c)).execStmts_eq_run hi _
  rw [List.append_assoc, List.append_assoc, M.execStmts_append (M.execStmts_eq_run ha h),
    M.execStmts_append hh, M.execStmts_append (M.execStmts_eq_run ho _)]
  have hr : M.evaluate (M.run own (M.runInitializers c h)) (o.hookCall (.self .synthetic)) =
      [M.register o.memoryHook] := by
    rw [Options.hookCall, M.evaluate_hook, M.evaluate_self, List.nil_append]
  rw [M.execStmts_cons_completed rfl, hr]
  rfl

end Machine

def Member.mayReturn : Member → Bool
  | .constructor k => k.body.mayReturn
  | .block b => b.body.mayReturn
  | .field _ | .method _ => false

namespace ClassDecl

/-- Constructors are in source form and differ in their selectors, and nothing returns early. -/
structure IsSource (c : ClassDecl) : Prop where
  unlowered : ∀ k ∈ c.constructors, ∀ s ∈ k.body.statements.head?, s.allocation? = none
  selectors : (c.constructors.map Constructor.selector).Nodup
  returnFree : ∀ m ∈ c.members, m.mayReturn = false

section Source

variable {o : Options} {c : ClassDecl} {k : Constructor}

theorem isLowered_of_source (h : c.isInterface = false) (hc : c.IsSource)
    (hk : k ∈ (c.withImplicitConstructor o).constructors) : k.isLowered = false := by
  rcases implicit_or_mem_constructors o h hk with rfl | hm
  · rfl
  · exact Constructor.isLowered_eq_false_iff.mpr (hc.unlowered k hm)

theorem ownStatements_without_return (h : c.isInterface = false) (hc : c.IsSource)
    (hk : k ∈ (c.withImplicitConstructor o).constructors) :
    Stmt.anyMayReturn k.ownStatements = false := by
  rcases implicit_or_mem_constructors o h hk with rfl | hm
  · rfl
  · obtain ⟨m, hmem, hm⟩ := List.mem_filterMap.mp hm
    cases m with
    | constructor k' =>
      obtain rfl : k' = k := Option.some.inj hm
      have hb : k'.body.mayReturn = false := hc.returnFree _ hmem
      rw [Block.mayReturn_eq, Stmt.anyMayReturn_eq_false_iff] at hb
      rw [Stmt.anyMayReturn_eq_false_iff]
      intro s hs
      refine hb s ?_
      unfold Constructor.ownStatements at hs
      split at hs
      · rename_i hbody
        rw [hbody]
        exact List.mem_cons_of_mem _ hs
      · exact hs
    | _ => cases hm

theorem instanceInitializers_without_return (h : c.isInterface = false) (hc : c.IsSource) :
    Stmt.anyMayReturn c.instanceInitializers = false := by
  rw [← preamble_ofInstance h]
  exact preamble_without_return fun b hb _ => hc.returnFree (.block b) hb

theorem eq_of_selector (h : c.isInterface = false) (hc : c.IsSource) {k' : Constructor}
    (hk : k ∈ (c.withImplicitConstructor o).constructors)
    (hk' : k' ∈ (c.withImplicitConstructor o).constructors) (hs : k.selector = k'.selector) :
    k = k' := by
  have hn : ((c.withImplicitConstructor o).constructors.map Constructor.selector).Nodup := by
    rw [constructors_withImplicitConstructor o h]
    split
    · exact List.nodup_singleton _
    · exact hc.selectors
  exact List.inj_on_of_nodup_map hn hk hk' hs

end Source

section Order

variable {ε : Type} {M : Machine ε} {o : Options} {c : ClassDecl} {k next : Constructor}
  {i : Invocation} {h t : List ε}

theorem constructs_designated_iff (hl : k.isLowered = false) (hd : k.isDesignated = true) :
    Constructs M o c k h t ↔
      t = M.registered o (M.run k.ownStatements (M.runInitializers c
        (h ++ M.invoke h (k.ownInvocation?.getD (.toSuperclass o.defaultSelector []))))) := by
  constructor
  · intro hc
    cases hc with
    | superclass hk =>
      rw [Constructor.ownInvocation?_of_invoke hk, Constructor.ownStatements_of_invoke hk]
      rfl
    | implicit hk =>
      have hnone := Constructor.ownInvocation?_eq_none_iff.mpr hk
      rw [Constructor.ownStatements_of_none hnone, hnone]
      rfl
    | sibling hk hi =>
      have hs := Constructor.ownInvocation?_callee hl hd (Constructor.ownInvocation?_of_invoke hk)
      rw [hs] at hi
      cases hi
  · rintro rfl
    cases hi : k.ownInvocation? with
    | none =>
      rw [Constructor.ownStatements_of_none hi]
      exact .implicit (Constructor.ownInvocation?_eq_none_iff.mp hi)
    | some i =>
      exact .superclass (Constructor.statements_of_ownInvocation? hi)
        (Constructor.ownInvocation?_callee hl hd hi)

theorem constructs_delegating_iff (hc : c.isInterface = false) (hsource : c.IsSource)
    (hi : k.ownInvocation? = some i) (hd : i.callee = .sibling)
    (hn : next ∈ (c.withImplicitConstructor o).constructors) (hs : next.selector = i.selector) :
    Constructs M o c k h t ↔
      ∃ t₁, Constructs M o c next (h ++ M.invoke h { i with args := c.siblingArgs i.args }) t₁ ∧
        t = M.registered o (M.run k.ownStatements t₁) := by
  have hk := Constructor.statements_of_ownInvocation? hi
  constructor
  · intro hc'
    cases hc' with
    | superclass hk' hi' =>
      obtain ⟨heq, _⟩ := List.cons.inj (hk.symm.trans hk')
      rw [← Stmt.invoke.inj heq, hd] at hi'
      cases hi'
    | implicit hk' => exact (hk' _ _ hk).elim
    | sibling hk' _ hm hs' hr =>
      cases hk.symm.trans hk'
      rw [← sourceConstructors_eq o hc] at hm
      rw [eq_of_selector hc hsource hm hn (hs'.trans hs.symm)] at hr
      exact ⟨_, hr, rfl⟩
  · rintro ⟨t₁, hr, rfl⟩
    rw [sourceConstructors_eq o hc] at hn
    exact .sibling hk hd hn hs hr

theorem runs_designated_iff (hc : c.isInterface = false) (hsource : c.IsSource)
    (hb : c.boundaryFault? = none) (hk : k ∈ (c.withImplicitConstructor o).constructors)
    (hd : k.isDesignated = true) {all : List Constructor} :
    Runs M all (c.normalConstructor o k).body.statements h t ↔
      t = (M.reading o.adjuster).registered o ((M.reading o.adjuster).run k.ownStatements
        ((M.reading o.adjuster).runInitializers c (h ++ (M.reading o.adjuster).invoke h
          (k.ownInvocation?.getD (.toSuperclass o.defaultSelector []))))) := by
  have hl := isLowered_of_source hc hsource hk
  obtain ⟨hbody, _⟩ := (normalConstructor_hoistsInto hc hb hk).designated hd hl
  rw [enclosingAssignment_eq] at hbody
  have hi : (o.adjuster.mapInvocation
      (k.ownInvocation?.getD (.toSuperclass o.defaultSelector []))).callee = .superclass :=
    Invocation.delegates_eq_false_iff.mp
      (Constructor.allocation_of_designated hl hd o.defaultSelector)
  have hg := Machine.execStmts_guarded (M := M.reading o.adjuster) (o := o)
    (instanceInitializers_without_return hc hsource) (ownStatements_without_return hc hsource hk)
    (h ++ (M.reading o.adjuster).invoke h
      (k.ownInvocation?.getD (.toSuperclass o.defaultSelector [])))
  rw [← Machine.execStmts_mapStmts] at hg
  rw [hbody, runs_superclass_iff rfl hi, Stmt.afterAllocation, Block.ofList]
  refine (runs_block_iff hg).trans ?_
  exact runs_returning_self_iff _ _

theorem runs_sibling_normal_iff (hc : c.isInterface = false) (hsource : c.IsSource) {s : Stmt}
    {rest : List Stmt} (ha : s.allocation? = some i) (hd : i.callee = .sibling)
    (hn : next ∈ (c.withImplicitConstructor o).constructors) (hs : next.selector = i.selector) :
    Runs M (c.normalized o).constructors (s :: rest) h t ↔
      ∃ t₁, Runs M (c.normalized o).constructors (c.normalConstructor o next).body.statements
          (h ++ M.invoke h i) t₁ ∧
        Runs M (c.normalized o).constructors (s.afterAllocation :: rest) t₁ t := by
  rw [runs_sibling_iff ha hd]
  constructor
  · rintro ⟨k', hk', hs', t₁, hb, hr⟩
    obtain ⟨k, hk, rfl⟩ := (mem_constructors_normalized o hc).mp hk'
    have hkn : k.selector = next.selector := by
      rw [← normalConstructor_selector o c k, hs', hs]
    rw [eq_of_selector hc hsource hk hn hkn] at hb
    exact ⟨t₁, hb, hr⟩
  · rintro ⟨t₁, hb, hr⟩
    have hm := (mem_constructors_normalized o hc).mpr ⟨next, hn, rfl⟩
    exact ⟨_, hm, (normalConstructor_selector o c next).trans hs, t₁, hb, hr⟩

theorem runs_delegating_iff (hc : c.isInterface = false) (hsource : c.IsSource)
    (hb : c.boundaryFault? = none) (hk : k ∈ (c.withImplicitConstructor o).constructors)
    (hi : k.ownInvocation? = some i) (hd : i.callee = .sibling)
    (hn : next ∈ (c.withImplicitConstructor o).constructors) (hs : next.selector = i.selector) :
    Runs M (c.normalized o).constructors (c.normalConstructor o k).body.statements h t ↔
      ∃ t₁, Runs M (c.normalized o).constructors (c.normalConstructor o next).body.statements
          (h ++ (M.reading o.adjuster).invoke h { i with args := c.siblingArgs i.args }) t₁ ∧
        t = (M.reading o.adjuster).registered o
          ((M.reading o.adjuster).run k.ownStatements t₁) := by
  have hl := isLowered_of_source hc hsource hk
  have hdes : k.isDesignated = false :=
    Constructor.isDesignated_of_sibling ((Constructor.opening?_of_source hl).trans hi) hd
  obtain ⟨_, i', hi', _, hbody⟩ := (normalConstructor_hoistsInto hc hb hk).delegating hdes hl
  obtain rfl : i = i' := Option.some.inj (hi.symm.trans hi')
  rw [forwarding_enclosingParam?] at hbody
  have hf : (o.adjuster.mapInvocation { i with args := c.siblingArgs i.args }).callee = .sibling :=
    hd
  rw [hbody]
  by_cases hnil : k.ownStatements = []
  -- Without statements of its own the constructor allocates in its return.
  · rw [if_pos hnil, Rewriter.mapStmts_cons, Stmt.returning, Rewriter.mapStmt_ret, Option.map_some,
      Options.hookCall, Rewriter.mapExpr_hook, Rewriter.mapExpr_toExpr,
      runs_sibling_normal_iff hc hsource rfl hf hn hs]
    refine exists_congr fun t₁ => and_congr_right fun _ => ?_
    rw [hnil]
    exact runs_returning_registered_iff _ _ _
  · rw [if_neg hnil, Rewriter.mapStmts_cons, Rewriter.mapStmt_allocationGuard,
      runs_sibling_normal_iff hc hsource rfl hf hn hs]
    refine exists_congr fun t₁ => and_congr_right fun _ => ?_
    have hown := (M.reading o.adjuster).execStmts_eq_run
      (ownStatements_without_return hc hsource hk) t₁
    rw [← Machine.execStmts_mapStmts] at hown
    rw [Stmt.afterAllocation, Rewriter.mapBlock_eq]
    refine (runs_block_iff hown).trans ?_
    rw [Rewriter.mapStmts_cons, Stmt.returning, Rewriter.mapStmt_ret, Option.map_some,
      Options.hookCall, Rewriter.mapExpr_hook, Rewriter.mapExpr_self]
    exact runs_returning_registered_iff _ _ _

/-- Along a chain of delegation both orders give one and the same trace. -/
theorem exists_trace (hc : c.isInterface = false) (hsource : c.IsSource)
    (hb : c.boundaryFault? = none)
    (hr : ReachesDesignated (c.withImplicitConstructor o).constructors k)
    (hk : k ∈ (c.withImplicitConstructor o).constructors) (h : List ε) :
    ∃ t, ∀ t', (Constructs (M.reading o.adjuster) o c k h t' ↔ t' = t) ∧
      (Runs M (c.normalized o).constructors (c.normalConstructor o k).body.statements h t' ↔
        t' = t) := by
  -- The chain carries the induction; what a sibling adds depends on the events before it.
  induction hr generalizing h with
  | designated hsib =>
    have hd : Constructor.isDesignated _ = true := Option.isNone_iff_eq_none.mpr hsib
    have hl := isLowered_of_source hc hsource hk
    exact ⟨_, fun t' => ⟨constructs_designated_iff hl hd,
      runs_designated_iff hc hsource hb hk hd⟩⟩
  | @delegating k next selector position hsib hlast _ ih =>
    obtain ⟨hget, hselector⟩ := lastConstructor?_get hlast
    have hn : next ∈ (c.withImplicitConstructor o).constructors := List.mem_of_getElem? hget
    have hd : k.isDesignated = false := by
      simp [Constructor.isDesignated, hsib]
    have hl := isLowered_of_source hc hsource hk
    obtain ⟨i, hi, hdi⟩ := Constructor.exists_ownInvocation hl hd
    have hcallee := Invocation.delegates_eq_true_iff.mp hdi
    have ho : k.opening? = some i := (Constructor.opening?_of_source hl).trans hi
    have hs : next.selector = i.selector := by
      have hsib' : k.sibling? = some i.selector := by simp [Constructor.sibling?, ho, hdi]
      rw [hselector, Option.some.inj (hsib.symm.trans hsib')]
    obtain ⟨t, ht⟩ := ih hn
      (h ++ (M.reading o.adjuster).invoke h { i with args := c.siblingArgs i.args })
    refine ⟨(M.reading o.adjuster).registered o ((M.reading o.adjuster).run k.ownStatements t),
      fun t' => ⟨?_, ?_⟩⟩
    · rw [constructs_delegating_iff hc hsource hi hcallee hn hs]
      simp only [(ht _).1, exists_eq_left]
    · rw [runs_delegating_iff hc hsource hb hk hi hcallee hn hs]
      simp only [(ht _).2, exists_eq_left]

end Order

/-- Construction through a normalized class gives the events of construction through the source, in
their order, whatever a machine makes of them. Literals of the source count as respelled. -/
theorem normalize_keeps_order {ε : Type} {M : Machine ε} {o : Options} {c c' : ClassDecl}
    {s : Summary} (hc : c.kind = .ordinary) (hsource : c.IsSource)
    (h : c.normalize o = .ok (c', s)) :
    ∀ k ∈ c.sourceConstructors o, ∃ k' ∈ c'.constructors,
      k'.selector = k.selector ∧ ∀ before, ∃ after, ∀ t,
        (Constructs (M.reading o.adjuster) o c k before t ↔ t = after) ∧
          (Runs M c'.constructors k'.body.statements before t ↔ t = after) := by
  obtain ⟨hf, rfl, _⟩ := normalize_eq_ok_iff.mp h
  obtain ⟨_, hd, hb, _⟩ := fault?_eq_none_iff.mp hf
  have hi : c.isInterface = false := isInterface_eq_false_iff.mpr hc
  intro k hk
  rw [← sourceConstructors_eq o hi] at hk
  refine ⟨c.normalConstructor o k, ?_, normalConstructor_selector o c k, ?_⟩
  · rw [constructors_normalized o hi]
    exact List.mem_map_of_mem hk
  · exact exists_trace hi hsource hb (reachesDesignated_of_fault? o hi hd hk) hk

def chained : ClassDecl where
  type := ⟨⟨1⟩, "Account"⟩
  kind := .ordinary
  superclass := some ⟨⟨2⟩, "Record"⟩
  enclosing := []
  members := [
    .field { Field.ofName "balance" "int" with initializer := some (.int 5 .synthetic) },
    .constructor (.ofBody "init" [] [.toSibling "initWithName:" [.ofText "none"]]),
    .block (.ofInstance [.ofExpr (.string [0xD800] .synthetic)]),
    .constructor (.ofBody "initTwice" [] [.toSibling "init" [], .ofExpr (.localVar "again")]),
    .constructor (.ofBody "initWithName:" [] [.ofExpr (.localVar "name")])]
  span := .synthetic

theorem normalize_keeps_order_chained :
    chained.kind = .ordinary ∧ chained.IsSource ∧ ∃ c' s,
      chained.normalize .standard = .ok (c', s) ∧
      ∀ k ∈ chained.sourceConstructors .standard, ∃ k' ∈ c'.constructors,
        k'.selector = k.selector ∧ ∀ before, ∃ after, ∀ t,
          (Constructs ((Machine.recorder chained.type).reading Options.standard.adjuster) .standard
              chained k before t ↔ t = after) ∧
            (Runs (Machine.recorder chained.type) c'.constructors k'.body.statements before t ↔
              t = after) := by
  have hsource : chained.IsSource := ⟨by decide, by decide, by decide⟩
  have h : chained.normalize .standard =
      .ok (chained.normalized .standard, chained.changes .standard) :=
    normalize_eq_ok_iff.mpr ⟨by decide +kernel, rfl, rfl⟩
  exact ⟨rfl, hsource, _, _, h, normalize_keeps_order rfl hsource h⟩

end ClassDecl

end ExplicitInit
