import ExplicitInit.Stmt

namespace ExplicitInit

mutual

/-- The nodes strictly within an expression. -/
def Expr.inner : Expr → List Expr
  | .int .. | .float .. | .bool .. | .char .. | .null .. | .string .. | .name .. | .self ..
  | .unitString .. => []
  | .fieldAccess r _ _ => r :: r.inner
  | .assign l r _ => l :: l.inner ++ r :: r.inner
  | .binary _ l r _ => l :: l.inner ++ r :: r.inner
  | .call none _ args _ _ => Expr.nodesAll args
  | .call (some r) _ args _ _ => r :: r.inner ++ Expr.nodesAll args
  | .new _ _ args none _ => Expr.nodesAll args
  | .new _ _ args (some o) _ => o :: o.inner ++ Expr.nodesAll args
  | .array _ elements _ => Expr.nodesAll elements
  | .allocate _ _ args _ => Expr.nodesAll args
  | .hook _ a _ => a :: a.inner
  | .formatString _ args _ => Expr.nodesAll args

def Expr.nodesAll : List Expr → List Expr
  | [] => []
  | e :: es => e :: e.inner ++ Expr.nodesAll es

end

def Expr.nodes (e : Expr) : List Expr :=
  e :: e.inner

def Expr.optionalNodes : Option Expr → List Expr
  | none => []
  | some e => e.nodes

mutual

def Stmt.nodes : Stmt → List Expr
  | .expr e _ => e.nodes
  | .block b => b.nodes
  | .declare _ _ e _ => Expr.optionalNodes e
  | .ite c t none _ => c.nodes ++ t.nodes
  | .ite c t (some e) _ => c.nodes ++ t.nodes ++ e.nodes
  | .ret e _ => Expr.optionalNodes e
  | .invoke i => Expr.nodesAll i.args
  | .allocationGuard i b _ => Expr.nodesAll i.args ++ b.nodes
  | .classGuard _ b _ => b.nodes

def Stmt.nodesAll : List Stmt → List Expr
  | [] => []
  | s :: ss => s.nodes ++ Stmt.nodesAll ss

def Block.nodes : Block → List Expr
  | ⟨statements, _⟩ => Stmt.nodesAll statements

end

theorem Expr.nodesAll_eq_flatMap (es : List Expr) : Expr.nodesAll es = es.flatMap Expr.nodes := by
  induction es with
  | nil => rfl
  | cons e es ih => simp [Expr.nodesAll, Expr.nodes, ih]

theorem Stmt.nodesAll_eq_flatMap (ss : List Stmt) : Stmt.nodesAll ss = ss.flatMap Stmt.nodes := by
  induction ss with
  | nil => rfl
  | cons s ss ih => simp [Stmt.nodesAll, ih]

theorem Block.nodes_eq (b : Block) : b.nodes = b.statements.flatMap Stmt.nodes := by
  cases b
  exact Stmt.nodesAll_eq_flatMap _

end ExplicitInit
