import ExplicitInit.Respell
import ExplicitInit.Options
import ExplicitInit.Proofs.RewrittenNodes
import ExplicitInit.Proofs.Unchanged

namespace ExplicitInit

def respeller : Rewriter Id where
  expression e walk :=
    match e with
    | .string units span => if allInline units then walk else pure (.unitString units span)
    | .binary _ _ _ span =>
      match e.mixture? with
      | some ls => pure (formatOf ls span)
      | none => walk
    | _ => walk

def Options.adjuster (o : Options) : Rewriter Id :=
  if o.respellLiterals then respeller else {}

instance : respeller.KeepsForm where
  statement _ _ := rfl
  block _ _ := rfl
  construction e _ he := by cases e <;> first | rfl | cases he

instance (o : Options) : o.adjuster.KeepsForm := by
  unfold Options.adjuster
  split
  · infer_instance
  · exact ⟨fun _ _ => rfl, fun _ _ => rfl, fun _ _ _ => rfl⟩

/-- A counting action gives a result that does not depend on the count so far. -/
def Gives {α : Type} (x : StateM Nat α) (a : α) : Prop :=
  ∀ n, (x.run n).1 = a

namespace Gives

variable {α β : Type}

theorem pure (a : α) : Gives (Pure.pure a) a :=
  fun _ => rfl

theorem bind {x : StateM Nat α} {f : α → StateM Nat β} {a : α} {b : β} (hx : Gives x a)
    (hf : Gives (f a) b) : Gives (x >>= f) b := by
  intro n
  have h : (x >>= f).run n = (f (x.run n).1).run (x.run n).2 := rfl
  rw [h, hx n]
  exact hf _

theorem map {x : StateM Nat α} {a : α} (hx : Gives x a) (f : α → β) :
    Gives (do let y ← x; return f y) (f a) :=
  hx.bind (Gives.pure _)

end Gives

theorem literalRewriter_expression (e : Expr) {walk : StateM Nat Expr} {walked : Expr}
    (h : Gives walk walked) :
    Gives (literalRewriter.expression e walk) (respeller.expression e (Pure.pure walked)).run := by
  cases e with
  | string units span =>
    intro n
    by_cases hu : allInline units = true
    · simpa [literalRewriter, respeller, hu] using h n
    · simp only [literalRewriter, respeller, hu]
      rfl
  | binary op left right span =>
    intro n
    cases hm : (Expr.binary op left right span).mixture? with
    | some ls =>
      simp only [literalRewriter, respeller, hm]
      rfl
    | none => simpa [literalRewriter, respeller, hm] using h n
  | _ => exact h

mutual

theorem walkExpr_gives : (e : Expr) → Gives (literalRewriter.walkExpr e) (respeller.walkExpr e).run
  | .int .. | .float .. | .bool .. | .char .. | .null .. | .string .. | .name .. | .self ..
  | .unitString .. => fun _ => rfl
  | .fieldAccess r _ _ => (literalRewriter_expression r (walkExpr_gives r)).map _
  | .assign l r _ =>
    (literalRewriter_expression l (walkExpr_gives l)).bind
      ((literalRewriter_expression r (walkExpr_gives r)).map _)
  | .binary _ l r _ =>
    (literalRewriter_expression l (walkExpr_gives l)).bind
      ((literalRewriter_expression r (walkExpr_gives r)).map _)
  | .call none _ args _ _ => (rewriteExprs_gives args).map _
  | .call (some r) _ args _ _ =>
    (literalRewriter_expression r (walkExpr_gives r)).bind ((rewriteExprs_gives args).map _)
  | .new _ _ args none _ => (rewriteExprs_gives args).map _
  | .new _ _ args (some o) _ =>
    (literalRewriter_expression o (walkExpr_gives o)).bind ((rewriteExprs_gives args).map _)
  | .array _ elements _ => (rewriteExprs_gives elements).map _
  | .allocate _ _ args _ => (rewriteExprs_gives args).map _
  | .hook _ a _ => (literalRewriter_expression a (walkExpr_gives a)).map _
  | .formatString _ args _ => (rewriteExprs_gives args).map _

theorem rewriteExprs_gives :
    (es : List Expr) → Gives (literalRewriter.rewriteExprs es) (respeller.rewriteExprs es).run
  | [] => fun _ => rfl
  | e :: es =>
    (literalRewriter_expression e (walkExpr_gives e)).bind ((rewriteExprs_gives es).map _)

end

theorem rewriteExpr_gives (e : Expr) :
    Gives (literalRewriter.rewriteExpr e) (respeller.mapExpr e) :=
  literalRewriter_expression e (walkExpr_gives e)

theorem walkInvocation_gives (i : Invocation) :
    Gives (literalRewriter.walkInvocation i) (respeller.mapInvocation i) :=
  (rewriteExprs_gives i.args).map _

mutual

theorem walkStmt_gives : (s : Stmt) → Gives (literalRewriter.walkStmt s) (respeller.walkStmt s).run
  | .expr e _ => (rewriteExpr_gives e).map _
  | .block b => (walkBlock_gives b).map _
  | .declare _ _ none _ | .ret none _ => fun _ => rfl
  | .declare _ _ (some e) _ => (rewriteExpr_gives e).map _
  | .ite c t none _ => (rewriteExpr_gives c).bind ((walkStmt_gives t).map _)
  | .ite c t (some e) _ =>
    (rewriteExpr_gives c).bind ((walkStmt_gives t).bind ((walkStmt_gives e).map _))
  | .ret (some e) _ => (rewriteExpr_gives e).map _
  | .invoke i => (walkInvocation_gives i).map _
  | .allocationGuard i b _ => (walkInvocation_gives i).bind ((walkBlock_gives b).map _)
  | .classGuard _ b _ => (walkBlock_gives b).map _

theorem rewriteStmts_gives :
    (ss : List Stmt) → Gives (literalRewriter.rewriteStmts ss) (respeller.mapStmts ss)
  | [] => fun _ => rfl
  | s :: ss => (walkStmt_gives s).bind ((rewriteStmts_gives ss).map _)

theorem walkBlock_gives :
    (b : Block) → Gives (literalRewriter.walkBlock b) (respeller.walkBlock b).run
  | ⟨statements, _⟩ => (rewriteStmts_gives statements).map _

end

theorem rewriteBlock_gives (b : Block) :
    Gives (literalRewriter.rewriteBlock b) (respeller.mapBlock b) :=
  walkBlock_gives b

def Expr.isSettled : Expr → Bool
  | .string units _ => allInline units
  | _ => true

theorem settled_formatOf (ls : List StringLiteral) (span : Span) :
    ∀ x ∈ (formatOf ls span).nodes, x.isSettled = true := by
  intro x hx
  rcases List.mem_cons.mp hx with rfl | hx
  · rfl
  · change x ∈ Expr.nodesAll _ at hx
    rw [Expr.nodesAll_eq_flatMap] at hx
    obtain ⟨part, hp, hx⟩ := List.mem_flatMap.mp hx
    obtain ⟨l, _, rfl⟩ := List.mem_map.mp hp
    obtain rfl : x = l.numbered := by
      simpa [Expr.nodes, Expr.inner, StringLiteral.numbered] using hx
    rfl

theorem Expr.isSettled_form (e : Expr) : e.form.isSettled = e.isSettled := by
  cases e <;> rfl

/-- What the respeller makes of an expression: the expression with its parts respelled, a literal
written in another way, or a format of literals that were joined. -/
theorem mapExpr_respeller (e : Expr) :
    (e.isSettled = true ∧ respeller.mapExpr e = (respeller.walkExpr e).run) ∨
      (∃ units span, e = .string units span ∧ allInline units = false ∧
        respeller.mapExpr e = .unitString units span) ∨
      ∃ ls, e.literals? = some ls ∧ respeller.mapExpr e = formatOf ls e.span := by
  cases e with
  | string units span =>
    by_cases hu : allInline units = true
    · left
      simp [Rewriter.mapExpr, Rewriter.rewriteExpr, respeller, hu, Expr.isSettled]
    · refine .inr (.inl ⟨units, span, rfl, eq_false_of_ne_true hu, ?_⟩)
      simp [Rewriter.mapExpr, Rewriter.rewriteExpr, respeller, hu]
  | binary op left right span =>
    cases hm : (Expr.binary op left right span).mixture? with
    | none =>
      left
      simp [Rewriter.mapExpr, Rewriter.rewriteExpr, respeller, hm, Expr.isSettled]
    | some ls =>
      refine .inr (.inr ⟨ls, (Option.filter_eq_some_iff.mp hm).1, ?_⟩)
      simp [Rewriter.mapExpr, Rewriter.rewriteExpr, respeller, hm, Expr.span]
  | _ => exact .inl ⟨rfl, rfl⟩

theorem mapNode_respeller (n : Node) :
    respeller.mapNode n = respeller.walkNode n ∨
      (∃ units span, n = .expr (.string units span) ∧
        respeller.mapNode n = .expr (.unitString units span)) ∨
      ∃ e ls, n = .expr e ∧ e.literals? = some ls ∧
        respeller.mapNode n = .expr (formatOf ls e.span) := by
  cases n with
  | stmt s => exact .inl (respeller.mapNode_stmt s)
  | block b => exact .inl (respeller.mapNode_block b)
  | expr e =>
    rcases mapExpr_respeller e with ⟨_, hw⟩ | ⟨units, span, rfl, _, hm⟩ | ⟨ls, hl, hm⟩
    · exact .inl (congrArg Node.expr hw)
    · exact .inr (.inl ⟨units, span, rfl, congrArg Node.expr hm⟩)
    · exact .inr (.inr ⟨e, ls, rfl, hl, congrArg Node.expr hm⟩)

def Expr.isRespelling : Expr → Bool
  | .unitString .. | .formatString .. => true
  | _ => false

theorem mem_nodes_respeller {e n : Expr} (h : n ∈ (respeller.mapExpr e).nodes) :
    (∃ m ∈ e.nodes, m.form = n.form) ∨ n.isRespelling = true := by
  refine Rewriter.forall_exprs_mapNode (n := .expr e)
    (P := fun n => (∃ m ∈ e.nodes, m.form = n.form) ∨ n.isRespelling = true)
    (fun m hm hparts n hn => ?_) n h
  rcases mapExpr_respeller m with ⟨_, hw⟩ | ⟨units, span, _, _, hs⟩ | ⟨ls, _, hf⟩
  · rw [hw, Rewriter.nodes_walkExpr] at hn
    rcases List.mem_cons.mp hn with rfl | hn
    · exact .inl ⟨m, hm, (respeller.form_walkExpr m).symm⟩
    · obtain ⟨p, hp, hn⟩ := List.mem_flatMap.mp hn
      exact hparts p hp n hn
  · rw [hs] at hn
    obtain rfl := List.mem_singleton.mp hn
    exact .inr rfl
  -- Below the format of joined literals stand only literals written by their units.
  · rw [hf] at hn
    rcases List.mem_cons.mp hn with rfl | hn
    · exact .inr rfl
    · rw [formatOf, Node.inner_eq] at hn
      obtain ⟨p, hp, hn⟩ := List.mem_flatMap.mp hn
      obtain ⟨l, _, rfl⟩ := List.mem_map.mp hp
      obtain rfl := List.mem_singleton.mp hn
      exact .inr rfl

/-- Respelling reaches every expression within a tree. -/
theorem settled_mapNode (n : Node) : ∀ x ∈ (respeller.mapNode n).exprs, x.isSettled = true := by
  refine Rewriter.forall_exprs_mapNode fun e _ hparts x hx => ?_
  rcases mapExpr_respeller e with ⟨hs, hw⟩ | ⟨units, span, _, _, hm⟩ | ⟨ls, _, hm⟩
  · rw [hw, Rewriter.nodes_walkExpr] at hx
    rcases List.mem_cons.mp hx with rfl | hx
    · rw [← Expr.isSettled_form, Rewriter.form_walkExpr, Expr.isSettled_form, hs]
    · obtain ⟨p, hp, hx⟩ := List.mem_flatMap.mp hx
      exact hparts p hp x hx
  · rw [hm] at hx
    obtain rfl := List.mem_singleton.mp hx
    rfl
  · rw [hm] at hx
    exact settled_formatOf ls e.span x hx

theorem settled_mapExprs (es : List Expr) :
    ∀ x ∈ Expr.nodesAll (respeller.mapExprs es), x.isSettled = true := by
  intro x hx
  rw [Expr.nodesAll_eq_flatMap, Rewriter.mapExprs_eq_map, List.flatMap_map] at hx
  obtain ⟨e, _, hx⟩ := List.mem_flatMap.mp hx
  exact settled_mapNode (.expr e) x hx

theorem settled_mapBlock (b : Block) : ∀ x ∈ (respeller.mapBlock b).nodes, x.isSettled = true :=
  settled_mapNode (.block b)

theorem settled_mapStmts (ss : List Stmt) :
    ∀ x ∈ Stmt.nodesAll (respeller.mapStmts ss), x.isSettled = true := by
  have h := settled_mapNode (.ofStmts ss)
  rwa [Rewriter.mapNode_ofStmts] at h

theorem mem_nodes_of_literals? {e : Expr} {ls : List StringLiteral} (h : e.literals? = some ls) :
    ∀ l ∈ ls, Expr.string l.units l.span ∈ e.nodes := by
  fun_induction Expr.literals? e generalizing ls with
  | case1 units span =>
    cases Option.some.inj h
    simp [Expr.nodes]
  | case2 left right span as hl bs hr ihl ihr =>
    cases Option.some.inj h
    intro l hm
    apply List.mem_cons_of_mem
    exact List.mem_append.mpr ((List.mem_append.mp hm).imp (ihl hl l) (ihr hr l))
  | case3 => simp at h
  | case4 => simp at h
  | case5 => simp at h

theorem mixture?_eq_none_of_settled {e : Expr} (h : ∀ x ∈ e.nodes, x.isSettled = true) :
    e.mixture? = none := by
  apply Option.filter_eq_none_iff.mpr
  intro ls hl hany
  obtain ⟨l, hm, hn⟩ := List.any_eq_true.mp hany
  have hi : l.isInline = true := h _ (mem_nodes_of_literals? hl l hm)
  simp [hi] at hn

theorem literalRewriter_of_settled (e : Expr) (h : ∀ x ∈ e.nodes, x.isSettled = true) :
    literalRewriter.expression e (pure e) = pure e := by
  cases e with
  | string units span =>
    have hu : allInline units = true := h _ (List.mem_cons_self ..)
    simp [literalRewriter, hu]
  | binary op left right span => simp [literalRewriter, mixture?_eq_none_of_settled h]
  | _ => rfl

theorem literalRewriter_leaves : literalRewriter.Leaves fun e => e.isSettled = true :=
  ⟨literalRewriter_of_settled, fun _ => rfl, fun _ => rfl⟩

theorem rewriteBlock_of_settled {b : Block} (h : ∀ x ∈ b.nodes, x.isSettled = true) :
    literalRewriter.rewriteBlock b = pure b :=
  Rewriter.rewriteBlock_eq_pure literalRewriter_leaves b h

theorem mapExprs_of_settled {es : List Expr} (h : ∀ x ∈ Expr.nodesAll es, x.isSettled = true) :
    respeller.mapExprs es = es := by
  have hg := rewriteExprs_gives es 0
  rw [Rewriter.rewriteExprs_eq_pure literalRewriter_leaves es h] at hg
  exact hg.symm

theorem mapStmts_of_settled {ss : List Stmt} (h : ∀ x ∈ Stmt.nodesAll ss, x.isSettled = true) :
    respeller.mapStmts ss = ss := by
  have hg := rewriteStmts_gives ss 0
  rw [Rewriter.rewriteStmts_eq_pure literalRewriter_leaves ss h] at hg
  exact hg.symm

theorem identity_leaves : ({} : Rewriter Id).Leaves fun _ => True :=
  ⟨fun _ _ => rfl, fun _ => rfl, fun _ => rfl⟩

theorem identity_mapExpr (e : Expr) : ({} : Rewriter Id).mapExpr e = e :=
  Rewriter.rewriteExpr_eq_pure identity_leaves e (by simp)

theorem identity_mapExprs (es : List Expr) : ({} : Rewriter Id).mapExprs es = es :=
  Rewriter.rewriteExprs_eq_pure identity_leaves es (by simp)

theorem identity_mapStmts (ss : List Stmt) : ({} : Rewriter Id).mapStmts ss = ss :=
  Rewriter.rewriteStmts_eq_pure identity_leaves ss (by simp)

namespace Options

variable (o : Options)

@[simp] theorem adjuster_mapExprs_twice (es : List Expr) :
    o.adjuster.mapExprs (o.adjuster.mapExprs es) = o.adjuster.mapExprs es := by
  unfold adjuster
  split
  · exact mapExprs_of_settled (settled_mapExprs es)
  · exact identity_mapExprs _

@[simp] theorem adjuster_mapStmts_twice (ss : List Stmt) :
    o.adjuster.mapStmts (o.adjuster.mapStmts ss) = o.adjuster.mapStmts ss := by
  unfold adjuster
  split
  · exact mapStmts_of_settled (settled_mapStmts ss)
  · exact identity_mapStmts _

@[simp] theorem adjuster_mapInvocation_twice (i : Invocation) :
    o.adjuster.mapInvocation (o.adjuster.mapInvocation i) = o.adjuster.mapInvocation i := by
  simp [Rewriter.mapInvocation]

@[simp] theorem adjuster_mapBlock_twice (b : Block) :
    o.adjuster.mapBlock (o.adjuster.mapBlock b) = o.adjuster.mapBlock b := by
  simp [Rewriter.mapBlock_eq]

theorem adjuster_isConstruction {e : Expr} (h : e.isConstruction = false) :
    (o.adjuster.mapExpr e).isConstruction = false := by
  unfold adjuster
  split
  · cases e with
    | string units span =>
      by_cases hu : allInline units = true
      all_goals simp [Rewriter.mapExpr, Rewriter.rewriteExpr, respeller, hu]; rfl
    | binary op left right span =>
      cases hm : (Expr.binary op left right span).mixture?
      all_goals simp [Rewriter.mapExpr, Rewriter.rewriteExpr, respeller, hm]; rfl
    | call receiver => cases receiver <;> rfl
    | new type selector args enclosing => cases enclosing <;> rfl
    | hook | self | allocate => cases h
    | _ => rfl
  · rw [identity_mapExpr]
    exact h

theorem adjuster_invocation? (e : Expr) :
    (o.adjuster.mapExpr e).invocation? = e.invocation?.map o.adjuster.mapInvocation := by
  cases he : e.isConstruction with
  | false =>
    have hm := o.adjuster_isConstruction he
    have hn : ∀ e : Expr, e.isConstruction = false → e.invocation? = none := by
      intro e h
      cases e <;> first | rfl | cases h
    rw [hn _ he, hn _ hm]
    rfl
  | true =>
    cases e with
    | self => simp [Expr.invocation?]
    | hook => simp [Expr.invocation?]
    | allocate callee selector args span =>
      exact congrArg Expr.invocation?
        (Rewriter.mapExpr_toExpr (w := o.adjuster) ⟨callee, selector, args, span⟩)
    | _ => cases he

theorem adjuster_returnedInvocation? (s : Stmt) :
    (o.adjuster.mapStmt s).returnedInvocation? =
      s.returnedInvocation?.map o.adjuster.mapInvocation := by
  cases s with
  | ret e span =>
    cases e with
    | none => simp [Stmt.returnedInvocation?]
    | some e =>
      rw [Rewriter.mapStmt_ret]
      cases he : e.isConstruction with
      | false =>
        have hm := o.adjuster_isConstruction he
        have hn : ∀ e : Expr, e.isConstruction = false →
            (Stmt.ret (some e) span).returnedInvocation? = none := by
          intro e h
          cases e <;> first | rfl | cases h
        rw [hn e he, Option.map_some, hn _ hm]
        rfl
      | true =>
        cases e with
        | self => simp [Stmt.returnedInvocation?]
        | hook procedure a hookSpan =>
          simpa [Stmt.returnedInvocation?] using o.adjuster_invocation? a
        | allocate callee selector args allocateSpan =>
          have hm := Rewriter.mapExpr_toExpr (w := o.adjuster)
            ⟨callee, selector, args, allocateSpan⟩
          simp only [Invocation.toExpr] at hm
          simp [Stmt.returnedInvocation?, hm]
        | _ => cases he
  | _ => simp [Stmt.returnedInvocation?]

end Options

end ExplicitInit
