import ExplicitInit.Proofs.Parts

namespace ExplicitInit

namespace Node

def ofStmts (ss : List Stmt) : Node :=
  .block (.ofList ss)

def here : Node → List Expr
  | expr e => [e]
  | stmt _ | block _ => []

theorem exprs_eq (n : Node) : n.exprs = n.here ++ n.parts.flatMap exprs := by
  cases n with
  | expr e =>
    rw [exprs, Expr.nodes, inner_eq, parts, List.flatMap_map]
    rfl
  | stmt s => exact nodes_eq s
  | block b =>
    rw [exprs, Block.nodes_eq, parts, List.flatMap_map]
    rfl

theorem within_expr_iff {n : Node} {e : Expr} : n.Within (.expr e) ↔ e ∈ n.exprs := by
  refine ⟨fun h => h.exprs List.mem_cons_self, ?_⟩
  induction n using induction_on_parts with
  | h n ih =>
    intro he
    rw [exprs_eq] at he
    rcases List.mem_append.mp he with he | he
    · cases n with
      | expr x =>
        obtain rfl := List.mem_singleton.mp he
        exact .root
      | stmt s => cases he
      | block b => cases he
    · obtain ⟨p, hp, he⟩ := List.mem_flatMap.mp he
      exact .of_part hp (ih p hp he)

end Node

namespace Rewriter

variable (w : Rewriter Id)

theorem nodes_walkExpr (e : Expr) : (w.walkExpr e).run.nodes =
    (w.walkExpr e).run :: e.parts.flatMap fun p => (w.mapExpr p).nodes := by
  rw [Expr.nodes, Node.inner_eq, parts_walkExpr, List.flatMap_map]

variable {w}

theorem mapNode_ofStmts [w.KeepsForm] (ss : List Stmt) :
    w.mapNode (.ofStmts ss) = .ofStmts (w.mapStmts ss) :=
  congrArg Node.block (mapBlock_eq (.ofList ss))

theorem forall_exprs_mapNode [w.KeepsForm] {P : Expr → Prop} {n : Node}
    (h : ∀ e ∈ n.exprs, (∀ p ∈ e.parts, ∀ x ∈ (w.mapExpr p).nodes, P x) →
      ∀ x ∈ (w.mapExpr e).nodes, P x) : ∀ x ∈ (w.mapNode n).exprs, P x := by
  induction n using Node.induction_on_parts with
  | h n ih =>
    have hparts : ∀ p ∈ n.parts, ∀ x ∈ (w.mapNode p).exprs, P x :=
      fun p hp => ih p hp fun e he => h e (Node.exprs_of_part hp he)
    -- A statement or a block is rewritten part by part.
    have hwalk (hn : w.mapNode n = w.walkNode n) (hh : (w.walkNode n).here = []) :
        ∀ x ∈ (w.mapNode n).exprs, P x := by
      intro x hx
      rw [hn, Node.exprs_eq, hh, List.nil_append, parts_walkNode, List.flatMap_map] at hx
      obtain ⟨p, hp, hx⟩ := List.mem_flatMap.mp hx
      exact hparts p hp x hx
    cases n with
    | expr e =>
      exact h e List.mem_cons_self fun p hp => hparts (.expr p) (List.mem_map_of_mem hp)
    | stmt s => exact hwalk (w.mapNode_stmt s) rfl
    | block b => exact hwalk (w.mapNode_block b) rfl

/-- A node within a rewritten tree has the place of one before, or it is below one that takes the
place of a node that is not just rewritten part by part. -/
theorem samePlace_of_within_mapNode {root x' : Node} (h : (w.mapNode root).Within x') :
    (∃ x, Node.SamePlace root (w.mapNode root) x x' ∧ x' = w.mapNode x) ∨
      ∃ n, Node.SamePlace root (w.mapNode root) n (w.mapNode n) ∧ w.mapNode n ≠ w.walkNode n ∧
        ∃ p ∈ (w.mapNode n).parts, p.Within x' := by
  induction h with
  | root => exact .inl ⟨root, .root, rfl⟩
  | @part m x' _ hx ih =>
    rcases ih with ⟨n, hn, rfl⟩ | ⟨n, hn, hne, p, hp, hpm⟩
    · by_cases he : w.mapNode n = w.walkNode n
      · have hx' := hx
        rw [he, parts_walkNode] at hx'
        obtain ⟨y, hy, rfl⟩ := List.mem_map.mp hx'
        exact .inl ⟨y, samePlace_part hn he hy, rfl⟩
      · exact .inr ⟨n, hn, he, x', hx, .root⟩
    · exact .inr ⟨n, hn, hne, p, hp, .part hpm hx⟩

end Rewriter

end ExplicitInit
