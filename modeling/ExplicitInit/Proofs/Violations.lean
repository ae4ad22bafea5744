import ExplicitInit.Proofs.Nodes
import ExplicitInit.Validation

namespace ExplicitInit

def Member.initializerNodes : Member → List Expr
  | .field f => Expr.optionalNodes f.initializer
  | .block b => b.body.nodes
  | .constructor _ | .method _ => []

namespace ClassDecl

/-- The promise that an expression breaks by itself, whatever its parts are: a name is bound, an
enclosing instance is one that the class has, and a call without receiver is of a known method. -/
def violation? (c : ClassDecl) : Expr → Option Fault
  | .name x none span => some (.unboundName c.type.name x span)
  | .name _ (some (.enclosing type)) _ =>
    if c.encloses type then none else some (.noEnclosingInstance c.type.name type.name)
  | .call none selector _ none span => some (.unboundName c.type.name selector span)
  | _ => none

/-- All promises of binding that the initializers of a class break, in order. -/
def violations (c : ClassDecl) : List Fault :=
  c.members.flatMap fun m => m.initializerNodes.filterMap c.violation?

end ClassDecl

def stopAtFirst : List Fault → Except Fault Unit
  | [] => .ok ()
  | fault :: _ => .error fault

theorem stopAtFirst_append (fs gs : List Fault) :
    stopAtFirst (fs ++ gs) = stopAtFirst fs >>= fun _ => stopAtFirst gs := by
  cases fs <;> rfl

namespace ClassDecl

variable (c : ClassDecl)

def checkNodes (es : List Expr) : Except Fault Unit :=
  stopAtFirst (es.filterMap c.violation?)

theorem checkNodes_append (es fs : List Expr) :
    c.checkNodes (es ++ fs) = c.checkNodes es >>= fun _ => c.checkNodes fs := by
  rw [checkNodes, List.filterMap_append]
  exact stopAtFirst_append _ _

section Walk

-- A name and a call have a check of their own; every other expression only has that of its parts.
mutual

theorem walkExpr_eq_checkNodes : (e : Expr) → c.scopeVisitor.walkExpr e = c.checkNodes e.nodes
  | .int .. | .float .. | .bool .. | .char .. | .null .. | .string .. | .self ..
  | .unitString .. => rfl
  | .name _ none _ | .name _ (some .localVar) _ | .name _ (some (.field _)) _
  | .name _ (some (.type _)) _ => rfl
  | .name x (some (.enclosing type)) span => by
    rw [Visitor.walkExpr, checkNodes, Expr.nodes, Expr.inner, List.filterMap_cons, violation?]
    simp only [scopeVisitor]
    split <;> rfl
  | .fieldAccess r _ _ => walkExpr_eq_checkNodes r
  | .assign l r span => by
    have hn : c.checkNodes (Expr.assign l r span).nodes = c.checkNodes (l.nodes ++ r.nodes) := rfl
    rw [hn, checkNodes_append, ← walkExpr_eq_checkNodes l, ← walkExpr_eq_checkNodes r]
    rfl
  | .binary op l r span => by
    have hn : c.checkNodes (Expr.binary op l r span).nodes = c.checkNodes (l.nodes ++ r.nodes) :=
      rfl
    rw [hn, checkNodes_append, ← walkExpr_eq_checkNodes l, ← walkExpr_eq_checkNodes r]
    rfl
  | .call none _ _ none _ => rfl
  | .call none _ args (some _) _ => visitExprs_eq_checkNodes args
  | .call (some r) selector args method span => by
    have hn : c.checkNodes (Expr.call (some r) selector args method span).nodes =
        c.checkNodes (r.nodes ++ Expr.nodesAll args) := by
      cases method <;> rfl
    rw [hn, checkNodes_append, ← walkExpr_eq_checkNodes r, ← visitExprs_eq_checkNodes args]
    rfl
  | .new _ _ args none _ => visitExprs_eq_checkNodes args
  | .new type selector args (some o) span => by
    have hn : c.checkNodes (Expr.new type selector args (some o) span).nodes =
        c.checkNodes (o.nodes ++ Expr.nodesAll args) := rfl
    rw [hn, checkNodes_append, ← walkExpr_eq_checkNodes o, ← visitExprs_eq_checkNodes args]
    rfl
  | .array _ elements _ => visitExprs_eq_checkNodes elements
  | .allocate _ _ args _ => visitExprs_eq_checkNodes args
  | .hook _ a _ => walkExpr_eq_checkNodes a
  | .formatString _ args _ => visitExprs_eq_checkNodes args

theorem visitExprs_eq_checkNodes :
    (es : List Expr) → c.scopeVisitor.visitExprs es = c.checkNodes (Expr.nodesAll es)
  | [] => rfl
  | e :: es => by
    have hn : Expr.nodesAll (e :: es) = e.nodes ++ Expr.nodesAll es := rfl
    rw [hn, checkNodes_append, ← walkExpr_eq_checkNodes e, ← visitExprs_eq_checkNodes es]
    rfl

end

mutual

theorem walkStmt_eq_checkNodes : (s : Stmt) → c.scopeVisitor.walkStmt s = c.checkNodes s.nodes
  | .expr e _ | .declare _ _ (some e) _ | .ret (some e) _ => walkExpr_eq_checkNodes c e
  | .declare _ _ none _ | .ret none _ => rfl
  | .block b | .classGuard _ b _ => walkBlock_eq_checkNodes b
  | .ite cond t none _ => by
    rw [Stmt.nodes, checkNodes_append, ← walkExpr_eq_checkNodes, ← walkStmt_eq_checkNodes t]
    rfl
  | .ite cond t (some e) _ => by
    rw [Stmt.nodes, List.append_assoc, checkNodes_append, checkNodes_append,
      ← walkExpr_eq_checkNodes, ← walkStmt_eq_checkNodes t, ← walkStmt_eq_checkNodes e]
    rfl
  | .invoke i => visitExprs_eq_checkNodes c i.args
  | .allocationGuard i b _ => by
    rw [Stmt.nodes, checkNodes_append, ← visitExprs_eq_checkNodes, ← walkBlock_eq_checkNodes b]
    rfl

theorem visitStmts_eq_checkNodes :
    (ss : List Stmt) → c.scopeVisitor.visitStmts ss = c.checkNodes (Stmt.nodesAll ss)
  | [] => rfl
  | s :: ss => by
    rw [Stmt.nodesAll, checkNodes_append, ← walkStmt_eq_checkNodes s,
      ← visitStmts_eq_checkNodes ss]
    rfl

theorem walkBlock_eq_checkNodes :
    (b : Block) → c.scopeVisitor.walkBlock b = c.checkNodes b.nodes
  | ⟨statements, _⟩ => visitStmts_eq_checkNodes statements

end

theorem checkScope_eq_checkNodes (m : Member) :
    c.checkScope m = c.checkNodes m.initializerNodes := by
  cases m with
  | field f =>
    rw [checkScope, Member.initializerNodes]
    cases f.initializer with
    | none => rfl
    | some e => exact walkExpr_eq_checkNodes c e
  | block b => exact walkBlock_eq_checkNodes c b.body
  | constructor k => rfl
  | method f => rfl

theorem forM_checkScope (ms : List Member) :
    ms.forM c.checkScope =
      stopAtFirst (ms.flatMap fun m => m.initializerNodes.filterMap c.violation?) := by
  induction ms with
  | nil => rfl
  | cons m ms ih =>
    have hm : (m :: ms).forM c.checkScope = c.checkScope m >>= fun _ => ms.forM c.checkScope := rfl
    rw [hm, ih, checkScope_eq_checkNodes, List.flatMap_cons, stopAtFirst_append]
    rfl

end Walk

/-- The check gives the first of all violations. -/
theorem scopeFault?_eq_head? : c.scopeFault? = c.violations.head? := by
  rw [scopeFault?, forM_checkScope, violations]
  cases c.members.flatMap fun m => m.initializerNodes.filterMap c.violation? <;> rfl

end ClassDecl

end ExplicitInit
