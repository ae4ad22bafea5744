import ExplicitInit.Rewrite
import ExplicitInit.Proofs.Nodes

namespace ExplicitInit.Rewriter

variable {m : Type → Type} [Monad m] {w : Rewriter m} {P : Expr → Prop}

/-- The rewriter has nothing to do in a tree all of whose nodes satisfy `P`. -/
structure Leaves (w : Rewriter m) (P : Expr → Prop) : Prop where
  expression : ∀ e, (∀ x ∈ e.nodes, P x) → w.expression e (pure e) = pure e
  statement : ∀ s, w.statement s (pure s) = pure s
  block : ∀ b, w.block b (pure b) = pure b

mutual

theorem walkExpr_eq_pure [LawfulMonad m] (hw : w.Leaves P) :
    (e : Expr) → (∀ x ∈ e.inner, P x) → w.walkExpr e = pure e
  | .int .., _ | .float .., _ | .bool .., _ | .char .., _ | .null .., _ | .string .., _
  | .name .., _ | .self .., _ | .unitString .., _ => rfl
  | .fieldAccess r _ _, h => by simp [walkExpr, node_eq_pure hw r h]
  | .assign l r _, h => by
    obtain ⟨hl, hr⟩ := List.forall_mem_append.mp h
    simp [walkExpr, node_eq_pure hw l hl, node_eq_pure hw r hr]
  | .binary _ l r _, h => by
    obtain ⟨hl, hr⟩ := List.forall_mem_append.mp h
    simp [walkExpr, node_eq_pure hw l hl, node_eq_pure hw r hr]
  | .call none _ args _ _, h => by simp [walkExpr, rewriteExprs_eq_pure hw args h]
  | .call (some r) _ args _ _, h => by
    obtain ⟨hr, ha⟩ := List.forall_mem_append.mp h
    simp [walkExpr, node_eq_pure hw r hr, rewriteExprs_eq_pure hw args ha]
  | .new _ _ args none _, h => by simp [walkExpr, rewriteExprs_eq_pure hw args h]
  | .new _ _ args (some o) _, h => by
    obtain ⟨ho, ha⟩ := List.forall_mem_append.mp h
    simp [walkExpr, node_eq_pure hw o ho, rewriteExprs_eq_pure hw args ha]
  | .array _ elements _, h => by simp [walkExpr, rewriteExprs_eq_pure hw elements h]
  | .allocate _ _ args _, h => by simp [walkExpr, rewriteExprs_eq_pure hw args h]
  | .hook _ a _, h => by simp [walkExpr, node_eq_pure hw a h]
  | .formatString _ args _, h => by simp [walkExpr, rewriteExprs_eq_pure hw args h]

theorem node_eq_pure [LawfulMonad m] (hw : w.Leaves P) (e : Expr) (h : ∀ x ∈ e.nodes, P x) :
    w.expression e (w.walkExpr e) = pure e := by
  rw [walkExpr_eq_pure hw e fun x hx => h x (List.mem_cons_of_mem e hx)]
  exact hw.expression e h

theorem rewriteExprs_eq_pure [LawfulMonad m] (hw : w.Leaves P) :
    (es : List Expr) → (∀ x ∈ Expr.nodesAll es, P x) → w.rewriteExprs es = pure es
  | [], _ => rfl
  | e :: es, h => by
    obtain ⟨hh, ht⟩ := List.forall_mem_append.mp h
    simp [rewriteExprs, node_eq_pure hw e hh, rewriteExprs_eq_pure hw es ht]

end

theorem rewriteExpr_eq_pure [LawfulMonad m] (hw : w.Leaves P) (e : Expr)
    (h : ∀ x ∈ e.nodes, P x) : w.rewriteExpr e = pure e :=
  node_eq_pure hw e h

theorem walkInvocation_eq_pure [LawfulMonad m] (hw : w.Leaves P) (i : Invocation)
    (h : ∀ x ∈ Expr.nodesAll i.args, P x) : w.walkInvocation i = pure i := by
  simp [walkInvocation, rewriteExprs_eq_pure hw i.args h]

mutual

theorem walkStmt_eq_pure [LawfulMonad m] (hw : w.Leaves P) :
    (s : Stmt) → (∀ x ∈ s.nodes, P x) → w.walkStmt s = pure s
  | .expr e _, h => by simp [walkStmt, rewriteExpr_eq_pure hw e h]
  | .block b, h => by simp [walkStmt, walkBlock_eq_pure hw b h, hw.block]
  | .declare _ _ none _, _ | .ret none _, _ => rfl
  | .declare _ _ (some e) _, h => by simp [walkStmt, rewriteExpr_eq_pure hw e h]
  | .ite c t none _, h => by
    obtain ⟨hc, ht⟩ := List.forall_mem_append.mp h
    simp [walkStmt, rewriteExpr_eq_pure hw c hc, walkStmt_eq_pure hw t ht, hw.statement]
  | .ite c t (some e) _, h => by
    obtain ⟨hct, he⟩ := List.forall_mem_append.mp h
    obtain ⟨hc, ht⟩ := List.forall_mem_append.mp hct
    simp [walkStmt, rewriteExpr_eq_pure hw c hc, walkStmt_eq_pure hw t ht,
      walkStmt_eq_pure hw e he, hw.statement]
  | .ret (some e) _, h => by simp [walkStmt, rewriteExpr_eq_pure hw e h]
  | .invoke i, h => by simp [walkStmt, walkInvocation_eq_pure hw i h]
  | .allocationGuard i b _, h => by
    obtain ⟨hi, hbody⟩ := List.forall_mem_append.mp h
    simp [walkStmt, walkInvocation_eq_pure hw i hi, walkBlock_eq_pure hw b hbody, hw.block]
  | .classGuard _ b _, h => by simp [walkStmt, walkBlock_eq_pure hw b h, hw.block]

theorem rewriteStmts_eq_pure [LawfulMonad m] (hw : w.Leaves P) :
    (ss : List Stmt) → (∀ x ∈ Stmt.nodesAll ss, P x) → w.rewriteStmts ss = pure ss
  | [], _ => rfl
  | s :: ss, h => by
    obtain ⟨hh, ht⟩ := List.forall_mem_append.mp h
    simp [rewriteStmts, walkStmt_eq_pure hw s hh, rewriteStmts_eq_pure hw ss ht, hw.statement]

theorem walkBlock_eq_pure [LawfulMonad m] (hw : w.Leaves P) :
    (b : Block) → (∀ x ∈ b.nodes, P x) → w.walkBlock b = pure b
  | ⟨statements, _⟩, h => by simp [walkBlock, rewriteStmts_eq_pure hw statements h]

end

theorem rewriteBlock_eq_pure [LawfulMonad m] (hw : w.Leaves P) (b : Block)
    (h : ∀ x ∈ b.nodes, P x) : w.rewriteBlock b = pure b := by
  rw [rewriteBlock, walkBlock_eq_pure hw b h, hw.block]

end ExplicitInit.Rewriter
