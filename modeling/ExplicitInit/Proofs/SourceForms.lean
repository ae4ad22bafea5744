import ExplicitInit.Proofs.EnclosingPaths
import ExplicitInit.Proofs.StringMeaning

namespace ExplicitInit

def Expr.isLoweredForm : Expr → Bool
  | .allocate .. | .hook .. => true
  | _ => false

def Expr.isSource (e : Expr) : Bool :=
  e.nodes.all (!·.isLoweredForm)

def Invocation.isSource (i : Invocation) : Bool :=
  i.args.all Expr.isSource

mutual

def Stmt.isSource : Stmt → Bool
  | .expr e _ => e.isSource
  | .block b | .classGuard _ b _ => b.isSource
  | .declare _ _ e _ | .ret e _ => e.all Expr.isSource
  | .ite c t none _ => c.isSource && t.isSource
  | .ite c t (some e) _ => c.isSource && t.isSource && e.isSource
  | .invoke i => i.isSource
  | .allocationGuard .. => false

def Stmt.allSource : List Stmt → Bool
  | [] => true
  | s :: ss => s.isSource && Stmt.allSource ss

def Block.isSource : Block → Bool
  | ⟨statements, _⟩ => Stmt.allSource statements

end

theorem Block.isSource_eq (b : Block) : b.isSource = Stmt.allSource b.statements := by
  cases b
  rfl

theorem Stmt.allSource_append (ss ts : List Stmt) :
    Stmt.allSource (ss ++ ts) = (Stmt.allSource ss && Stmt.allSource ts) := by
  induction ss with
  | nil => rfl
  | cons s ss ih => rw [List.cons_append, Stmt.allSource, Stmt.allSource, ih, Bool.and_assoc]

theorem Expr.isLoweredForm_form (e : Expr) : e.form.isLoweredForm = e.isLoweredForm := by
  cases e <;> rfl

namespace Rewriter

/-- A rewriter that puts nothing but source forms in the place of source forms. -/
def KeepsSource (w : Rewriter Id) : Prop :=
  ∀ e : Expr, e.isSource = true → (w.mapExpr e).isSource = true

variable {w : Rewriter Id}

theorem isSource_mapInvocation (hw : w.KeepsSource) {i : Invocation} (h : i.isSource = true) :
    (w.mapInvocation i).isSource = true := by
  rw [Invocation.isSource, mapInvocation, mapExprs_eq_map, List.all_map]
  exact List.all_eq_true.mpr fun a ha => hw a (List.all_eq_true.mp h a ha)

theorem isSource_mapOptional (hw : w.KeepsSource) {e : Option Expr}
    (h : e.all Expr.isSource = true) : (e.map w.mapExpr).all Expr.isSource = true := by
  cases e with
  | none => rfl
  | some e => exact hw e h

mutual

theorem isSource_mapStmt [w.KeepsForm] (hw : w.KeepsSource) :
    (s : Stmt) → s.isSource = true → (w.mapStmt s).isSource = true
  | .expr e _, h => by
    rw [mapStmt_expr]
    exact hw e h
  | .block b, h => by
    rw [mapStmt_block]
    exact isSource_mapBlock hw b h
  | .classGuard _ b _, h => by
    rw [mapStmt_classGuard]
    exact isSource_mapBlock hw b h
  | .declare _ _ e _, h => by
    rw [mapStmt_declare]
    exact isSource_mapOptional hw h
  | .ret e _, h => by
    rw [mapStmt_ret]
    exact isSource_mapOptional hw h
  | .ite c t none _, h => by
    obtain ⟨hc, ht⟩ := Bool.and_eq_true_iff.mp h
    rw [mapStmt_ite]
    exact Bool.and_eq_true_iff.mpr ⟨hw c hc, isSource_mapStmt hw t ht⟩
  | .ite c t (some e) _, h => by
    obtain ⟨hct, he⟩ := Bool.and_eq_true_iff.mp h
    obtain ⟨hc, ht⟩ := Bool.and_eq_true_iff.mp hct
    rw [mapStmt_ite]
    exact Bool.and_eq_true_iff.mpr ⟨Bool.and_eq_true_iff.mpr ⟨hw c hc, isSource_mapStmt hw t ht⟩,
      isSource_mapStmt hw e he⟩
  | .invoke i, h => by
    rw [mapStmt_invoke]
    exact isSource_mapInvocation hw h

theorem allSource_mapStmts [w.KeepsForm] (hw : w.KeepsSource) :
    (ss : List Stmt) → Stmt.allSource ss = true → Stmt.allSource (w.mapStmts ss) = true
  | [], _ => rfl
  | s :: ss, h => by
    obtain ⟨hs, hss⟩ := Bool.and_eq_true_iff.mp h
    exact Bool.and_eq_true_iff.mpr ⟨isSource_mapStmt hw s hs, allSource_mapStmts hw ss hss⟩

theorem isSource_mapBlock [w.KeepsForm] (hw : w.KeepsSource) :
    (b : Block) → b.isSource = true → (w.mapBlock b).isSource = true
  | ⟨statements, _⟩, h => by
    rw [mapBlock_eq, Block.isSource]
    exact allSource_mapStmts hw statements h

end

end Rewriter

theorem respeller_keepsSource : respeller.KeepsSource := by
  intro e he
  rw [Expr.isSource, List.all_eq_true] at *
  intro n hn
  rcases mem_nodes_respeller hn with ⟨m, hm, hf⟩ | hr
  · rw [← Expr.isLoweredForm_form, ← hf, Expr.isLoweredForm_form]
    exact he m hm
  · cases n <;> first | rfl | cases hr

theorem adjuster_keepsSource (o : Options) : o.adjuster.KeepsSource := by
  unfold Options.adjuster
  split
  · exact respeller_keepsSource
  · intro e he
    rwa [identity_mapExpr]

theorem enclosingRewriter_keepsSource (c : ClassDecl) : (enclosingRewriter c).KeepsSource := by
  intro e he
  rw [Expr.isSource, List.all_eq_true] at *
  change ∀ x ∈ ((enclosingRewriter c).mapNode (.expr e)).exprs, _
  refine forall_exprs_enclosing ?_ (fun _ _ _ _ _ => rfl) ?_
  · intro x hp
    cases hp <;> rfl
  · intro m hm _ x hf
    rw [← Expr.isLoweredForm_form, hf, Expr.isLoweredForm_form]
    exact he m hm

end ExplicitInit
