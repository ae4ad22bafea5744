import ExplicitInit.Events
import ExplicitInit.Proofs.RewrittenNodes
import ExplicitInit.Proofs.Violations
import Mathlib.Data.List.Basic

namespace ExplicitInit

def Event.node? : Event → Option Node
  | .statement s => some (.stmt s)
  | .block b => some (.block b)
  | .expression e => some (.expr e)
  | _ => none

namespace Node

def preorder (n : Node) : List Node :=
  n :: (n.parts.attach.map fun x => preorder x.1).flatten
termination_by sizeOf n
decreasing_by exact sizeOf_part x.2

theorem preorder_eq (n : Node) : n.preorder = n :: n.parts.flatMap preorder := by
  rw [preorder, List.map_attach_eq_pmap, List.pmap_eq_map, List.flatMap_def]

def preorderAll (ss : List Stmt) : List Node :=
  (ss.map stmt).flatMap preorder

def expr? : Node → Option Expr
  | expr e => some e
  | stmt _ | block _ => none

theorem filterMap_expr?_preorder (n : Node) : n.preorder.filterMap expr? = n.exprs := by
  induction n using induction_on_parts with
  | h n ih =>
    have hparts : (n.parts.flatMap preorder).filterMap expr? = n.parts.flatMap exprs := by
      rw [List.filterMap_flatMap]
      exact List.flatMap_congr ih
    rw [preorder_eq, exprs_eq, ← hparts]
    cases n <;> rfl

theorem filterMap_expr?_preorderAll (ss : List Stmt) :
    (preorderAll ss).filterMap expr? = Stmt.nodesAll ss := by
  rw [preorderAll, List.filterMap_flatMap, List.flatMap_map, Stmt.nodesAll_eq_flatMap]
  exact List.flatMap_congr fun s _ => filterMap_expr?_preorder (.stmt s)

def event : Node → Event
  | expr e => .expression e
  | stmt s => .statement s
  | block b => .block b

/-- What reading tells of a node beyond the node itself. -/
def details : Node → List Event
  | expr (.name x _ _) => [.name x]
  | expr (.string units _) => [.stringLiteral units]
  | expr (.call receiver selector args method s) => [.call ⟨receiver, selector, args, method, s⟩]
  | expr (.allocate callee selector args s) => [.invocation ⟨callee, selector, args, s⟩]
  | stmt (.invoke i) | stmt (.allocationGuard i _ _) => [.invocation i]
  | _ => []

def events (n : Node) : List Event :=
  n.event :: n.details

theorem node?_event (n : Node) : n.event.node? = some n := by
  cases n <;> rfl

theorem filterMap_node?_events (n : Node) : n.events.filterMap Event.node? = [n] := by
  have hdetails : n.details.filterMap Event.node? = [] := by
    unfold details
    split <;> rfl
  rw [events, List.filterMap_cons_some (node?_event n), hdetails]

theorem filterMap_node?_map_event (ns : List Node) :
    (ns.map event).filterMap Event.node? = ns := by
  rw [List.filterMap_map]
  exact (List.filterMap_congr fun n _ => node?_event n).trans List.filterMap_some

theorem filterMap_node?_flatMap_events (ns : List Node) :
    (ns.flatMap events).filterMap Event.node? = ns := by
  rw [List.filterMap_flatMap, List.flatMap_congr fun n _ => filterMap_node?_events n]
  exact List.flatMap_singleton' ns

end Node

section Acting

variable {m : Type → Type} [Monad m]

def Visitor.acting (act : Event → m Unit) : Visitor m where
  classDecl c walk := act (.classDecl c) *> walk
  member d walk := act (.member d) *> walk
  statement s walk := act (.statement s) *> walk
  block b walk := act (.block b) *> walk
  expression e walk := act (.expression e) *> walk
  call site walk := act (.call site) *> walk
  invocation i walk := act (.invocation i) *> walk
  name x _ _ := act (.name x)
  stringLiteral units _ := act (.stringLiteral units)

def Rewriter.acting (act : Event → m Unit) : Rewriter m where
  statement s walk := act (.statement s) *> walk
  block b walk := act (.block b) *> walk
  expression e walk := act (.expression e) *> walk

theorem forM_eq_flatMap [LawfulMonad m] {act : Event → m Unit} {visit : Node → m Unit}
    {listed : Node → List Event} {ns : List Node} (h : ∀ n ∈ ns, visit n = forM (listed n) act) :
    forM ns visit = forM (ns.flatMap listed) act := by
  induction ns with
  | nil => rfl
  | cons n ns ih =>
    rw [List.forM_cons, List.flatMap_cons, List.forM_append, h n List.mem_cons_self,
      ih fun x hx => h x (List.mem_cons_of_mem n hx)]

namespace Visitor

def visitNode (v : Visitor m) : Node → m Unit
  | .expr e => v.visitExpr e
  | .stmt s => v.visitStmt s
  | .block b => v.visitBlock b

theorem visitExprs_eq_forM (v : Visitor m) (es : List Expr) :
    v.visitExprs es = forM (es.map Node.expr) v.visitNode := by
  induction es with
  | nil => rfl
  | cons e es ih =>
    rw [visitExprs, ih]
    rfl

theorem visitStmts_eq_forM (v : Visitor m) (ss : List Stmt) :
    v.visitStmts ss = forM (ss.map Node.stmt) v.visitNode := by
  induction ss with
  | nil => rfl
  | cons s ss ih =>
    rw [visitStmts, ih]
    rfl

theorem walkBlock_eq_forM (v : Visitor m) (b : Block) :
    v.walkBlock b = forM (Node.block b).parts v.visitNode := by
  obtain ⟨statements, span⟩ := b
  exact v.visitStmts_eq_forM statements

variable (act : Event → m Unit)

@[simp] theorem acting_call (site : CallSite) (walk : m Unit) :
    (acting act).call site walk = act (.call site) *> walk := rfl

@[simp] theorem acting_invocation (i : Invocation) (walk : m Unit) :
    (acting act).invocation i walk = act (.invocation i) *> walk := rfl

@[simp] theorem acting_name (x : String) (b : Option Binding) (s : Span) :
    (acting act).name x b s = act (.name x) := rfl

@[simp] theorem acting_stringLiteral (units : List UInt16) (s : Span) :
    (acting act).stringLiteral units s = act (.stringLiteral units) := rfl

variable [LawfulMonad m]

theorem walkExpr_acting (e : Expr) : (acting act).walkExpr e = (do
    forM (Node.expr e).details act
    forM (Node.expr e).parts (acting act).visitNode) := by
  cases e with
  | call receiver selector args method s =>
    cases receiver <;> simp [walkExpr, Node.details, Node.parts, Expr.parts, visitExprs_eq_forM,
      visitNode, visitExpr, seqRight_eq_bind]
  | new type selector args enclosing s =>
    cases enclosing <;> simp [walkExpr, Node.details, Node.parts, Expr.parts, visitExprs_eq_forM,
      visitNode, visitExpr]
  | _ =>
    simp [walkExpr, Node.details, Node.parts, Expr.parts, visitExprs_eq_forM, visitNode, visitExpr,
      seqRight_eq_bind]

theorem walkStmt_acting (s : Stmt) : (acting act).walkStmt s = (do
    forM (Node.stmt s).details act
    forM (Node.stmt s).parts (acting act).visitNode) := by
  cases s with
  | declare x type e span | ret e span =>
    cases e <;> simp [walkStmt, Node.details, Node.parts, Stmt.parts, visitNode]
  | ite c t e span =>
    cases e <;> simp [walkStmt, Node.details, Node.parts, Stmt.parts, visitNode, visitStmt]
  | _ =>
    simp [walkStmt, Node.details, Node.parts, Stmt.parts, visitInvocation, visitExprs_eq_forM,
      visitNode, visitBlock, seqRight_eq_bind]

/-- Visiting a node is acting on it and visiting its parts. -/
theorem visitNode_acting (n : Node) : (acting act).visitNode n = (do
    forM n.events act
    forM n.parts (acting act).visitNode) := by
  have hstep (walk : m Unit) (h : walk = (do
      forM n.details act
      forM n.parts (acting act).visitNode)) :
      act n.event *> walk = (do
        forM n.events act
        forM n.parts (acting act).visitNode) := by
    rw [h, Node.events, List.forM_cons, seqRight_eq_bind, bind_assoc]
  cases n with
  | expr e => exact hstep _ (walkExpr_acting act e)
  | stmt s => exact hstep _ (walkStmt_acting act s)
  | block b => exact hstep _ ((walkBlock_eq_forM _ b).trans (by simp [Node.details]))

theorem visitNode_acting_eq (n : Node) :
    (acting act).visitNode n = forM (n.preorder.flatMap Node.events) act := by
  induction n using Node.induction_on_parts with
  | h n ih =>
    rw [visitNode_acting, Node.preorder_eq, List.flatMap_cons, List.forM_append,
      forM_eq_flatMap ih, List.flatMap_assoc]

theorem visitStmts_acting (ss : List Stmt) :
    (acting act).visitStmts ss = forM ((Node.preorderAll ss).flatMap Node.events) act := by
  rw [visitStmts_eq_forM, forM_eq_flatMap fun n _ => visitNode_acting_eq act n, Node.preorderAll,
    List.flatMap_assoc]

end Visitor

namespace Rewriter

variable (act : Event → m Unit)

def actOn (ns : List Node) : m Unit :=
  forM ((ns.flatMap Node.preorder).map Node.event) act

@[simp] theorem actOn_nil : actOn act [] = pure () := rfl

variable [LawfulMonad m]

@[simp] theorem actOn_cons (n : Node) (ns : List Node) : actOn act (n :: ns) = (do
    act n.event
    actOn act n.parts
    actOn act ns) := by
  simp [actOn, Node.preorder_eq]

@[simp] theorem actOn_append (ns ms : List Node) :
    actOn act (ns ++ ms) = (do actOn act ns; actOn act ms) := by
  simp [actOn]

@[simp] theorem acting_expression (e : Expr) (walk : m Expr) :
    (acting act).expression e walk = (do act (.expression e); walk) :=
  seqRight_eq_bind _ _

@[simp] theorem acting_statement (s : Stmt) (walk : m Stmt) :
    (acting act).statement s walk = (do act (.statement s); walk) :=
  seqRight_eq_bind _ _

@[simp] theorem acting_block (b : Block) (walk : m Block) :
    (acting act).block b walk = (do act (.block b); walk) :=
  seqRight_eq_bind _ _

mutual

theorem walkExpr_acting : (e : Expr) →
    (acting act).walkExpr e = (do actOn act (e.parts.map Node.expr); return e)
  | .int .. | .float .. | .bool .. | .char .. | .null .. | .string .. | .name .. | .self ..
  | .unitString .. => by simp [walkExpr, Expr.parts]
  | .fieldAccess r _ _ | .hook _ r _ => by
    simp [walkExpr, walkExpr_acting r, Expr.parts, Node.event, Node.parts]
  | .assign l r _ | .binary _ l r _ => by
    simp [walkExpr, walkExpr_acting l, walkExpr_acting r, Expr.parts, Node.event, Node.parts]
  | .call none _ args _ _ | .new _ _ args none _ | .array _ args _ | .allocate _ _ args _
  | .formatString _ args _ => by
    simp [walkExpr, rewriteExprs_acting args, Expr.parts]
  | .call (some r) _ args _ _ | .new _ _ args (some r) _ => by
    simp [walkExpr, walkExpr_acting r, rewriteExprs_acting args, Expr.parts, Node.event, Node.parts]

theorem rewriteExprs_acting : (es : List Expr) →
    (acting act).rewriteExprs es = (do actOn act (es.map Node.expr); return es)
  | [] => by simp [rewriteExprs]
  | e :: es => by
    simp [rewriteExprs, walkExpr_acting e, rewriteExprs_acting es, Node.event, Node.parts]

end

theorem rewriteExpr_acting (e : Expr) :
    (acting act).rewriteExpr e = (do actOn act [.expr e]; return e) := by
  simp [rewriteExpr, walkExpr_acting, Node.event, Node.parts]

theorem walkInvocation_acting (i : Invocation) :
    (acting act).walkInvocation i = (do actOn act (i.args.map Node.expr); return i) := by
  simp [walkInvocation, rewriteExprs_acting]

mutual

theorem walkStmt_acting : (s : Stmt) →
    (acting act).walkStmt s = (do actOn act s.parts; return s)
  | .declare _ _ none _ | .ret none _ => by simp [walkStmt, Stmt.parts]
  | .expr e _ | .declare _ _ (some e) _ | .ret (some e) _ => by
    simp [walkStmt, rewriteExpr_acting, Stmt.parts]
  | .block b | .classGuard _ b _ => by
    simp [walkStmt, walkBlock_acting b, Stmt.parts, Node.event]
  | .ite c t none s => by
    have hparts : (Stmt.ite c t none s).parts = [.expr c, .stmt t] := rfl
    simp [walkStmt, rewriteExpr_acting, walkStmt_acting t, hparts, Node.event, Node.parts]
  | .ite c t (some e) s => by
    have hparts : (Stmt.ite c t (some e) s).parts = [.expr c, .stmt t, .stmt e] := rfl
    simp [walkStmt, rewriteExpr_acting, walkStmt_acting t, walkStmt_acting e, hparts, Node.event,
      Node.parts]
  | .invoke i => by
    simp [walkStmt, walkInvocation_acting, Stmt.parts]
  | .allocationGuard i b _ => by
    simp [walkStmt, walkInvocation_acting, walkBlock_acting b, Stmt.parts, Node.event]

theorem rewriteStmts_acting : (ss : List Stmt) →
    (acting act).rewriteStmts ss = (do actOn act (ss.map Node.stmt); return ss)
  | [] => by simp [rewriteStmts]
  | s :: ss => by
    simp [rewriteStmts, walkStmt_acting s, rewriteStmts_acting ss, Node.event, Node.parts]

theorem walkBlock_acting : (b : Block) →
    (acting act).walkBlock b = (do actOn act (Node.block b).parts; return b)
  | ⟨statements, _⟩ => by simp [walkBlock, rewriteStmts_acting statements, Node.parts]

end

end Rewriter

end Acting

section Recording

variable {α : Type}

def Event.noting (note : Node → List α) (e : Event) : StateM (List α) Unit :=
  modify (· ++ e.node?.toList.flatMap note)

theorem run_forM_modify (f : Event → List α) (es : List Event) (written : List α) :
    (forM es fun e => (modify (· ++ f e) : StateM (List α) Unit)).run written =
      ((), written ++ es.flatMap f) := by
  induction es generalizing written with
  | nil => exact Prod.ext rfl (List.append_nil written).symm
  | cons e es ih =>
    rw [List.forM_cons, List.flatMap_cons, ← List.append_assoc]
    exact ih (written ++ f e)

theorem run_forM_noting (note : Node → List α) (es : List Event) :
    (forM es (Event.noting note)).run [] = ((), (es.filterMap Event.node?).flatMap note) := by
  rw [List.filterMap_eq_flatMap_toList, List.flatMap_assoc]
  exact run_forM_modify _ es []

theorem recorded_recorder (ss : List Stmt) :
    Event.recorded (Event.recorder.visitStmts ss) =
      (Node.preorderAll ss).flatMap Node.events := by
  have hread : Event.recorder.visitStmts ss =
      forM ((Node.preorderAll ss).flatMap Node.events) Event.record :=
    Visitor.visitStmts_acting Event.record ss
  have hrun := run_forM_modify (fun e => [e]) ((Node.preorderAll ss).flatMap Node.events) []
  rw [List.flatMap_singleton', List.nil_append] at hrun
  rw [Event.recorded, hread]
  exact congrArg Prod.snd hrun

/-- Whatever is noted of each node, be it the expressions alone, the statements or the blocks, a
reading and a rebuilding that changes nothing write down the same, in the order of the tree, and the
rebuilding gives the tree back. The check of a class comes to these expressions, in this order. -/
theorem traversals_agree (note : Node → List α) (ss : List Stmt) :
    ((Visitor.acting (Event.noting note)).visitStmts ss).run [] =
      ((), (Node.preorderAll ss).flatMap note) ∧
    ((Rewriter.acting (Event.noting note)).rewriteStmts ss).run [] =
      (ss, (Node.preorderAll ss).flatMap note) ∧
    (Event.recorded (Event.recorder.visitStmts ss)).filterMap Event.node? = Node.preorderAll ss ∧
    (Node.preorderAll ss).filterMap Node.expr? = Stmt.nodesAll ss ∧
    ∀ c : ClassDecl, c.scopeVisitor.visitStmts ss =
      c.checkNodes ((Node.preorderAll ss).filterMap Node.expr?) := by
  have hexprs := Node.filterMap_expr?_preorderAll ss
  refine ⟨?_, ?_, ?_, hexprs, fun c => hexprs ▸ c.visitStmts_eq_checkNodes ss⟩
  · rw [Visitor.visitStmts_acting, run_forM_noting, Node.filterMap_node?_flatMap_events]
  · rw [Rewriter.rewriteStmts_acting, StateT.run_bind, Rewriter.actOn, run_forM_noting,
      Node.filterMap_node?_map_event]
    rfl
  · rw [recorded_recorder, Node.filterMap_node?_flatMap_events]

end Recording

end ExplicitInit
