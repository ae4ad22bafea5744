import ExplicitInit.Proofs.Rewriting

namespace ExplicitInit

inductive Ending where
  | completed
  | returned
deriving DecidableEq

structure Machine (ε : Type) where
  evaluate : List ε → Expr → List ε
  holds : List ε → Expr → Bool
  declare : String → String → ε
  invoke : List ε → Invocation → List ε
  register : String → ε
  isExactly : TypeRef → Bool
  evaluate_self : ∀ h s, evaluate h (.self s) = []
  /-- A hook registers what its argument gives. -/
  evaluate_hook : ∀ h procedure a s, evaluate h (.hook procedure a s) =
    evaluate h a ++ [register procedure]

inductive Occurrence where
  | evaluated (expression : Expr)
  | declared (name type : String)
  | invoked (invocation : Invocation)
  | registered (procedure : String)

def Expr.occurrences : Expr → List Occurrence
  | .self _ => []
  | .hook procedure a _ => a.occurrences ++ [.registered procedure]
  | e => [.evaluated e]

def Machine.recorder (running : TypeRef) : Machine Occurrence where
  evaluate _ e := e.occurrences
  holds _ _ := true
  declare := .declared
  invoke _ i := [.invoked i]
  register := .registered
  isExactly := running.same
  evaluate_self _ _ := rfl
  evaluate_hook _ _ _ _ := rfl

namespace Machine

variable {ε : Type} (M : Machine ε)

mutual

def execStmt : Stmt → List ε → List ε × Ending
  | .expr e _, h => (h ++ M.evaluate h e, .completed)
  | .block b, h => execBlock b h
  | .declare x type none _, h => (h ++ [M.declare x type], .completed)
  | .declare x type (some e) _, h => (h ++ M.evaluate h e ++ [M.declare x type], .completed)
  | .ite c t none _, h =>
    if M.holds h c then execStmt t (h ++ M.evaluate h c) else (h ++ M.evaluate h c, .completed)
  | .ite c t (some e) _, h =>
    if M.holds h c then execStmt t (h ++ M.evaluate h c) else execStmt e (h ++ M.evaluate h c)
  | .ret none _, h => (h, .returned)
  | .ret (some e) _, h => (h ++ M.evaluate h e, .returned)
  | .invoke i, h => (h ++ M.invoke h i, .completed)
  | .allocationGuard i b _, h => execBlock b (h ++ M.invoke h i)
  | .classGuard type b _, h => if M.isExactly type then execBlock b h else (h, .completed)

def execStmts : List Stmt → List ε → List ε × Ending
  | [], h => (h, .completed)
  | s :: ss, h =>
    match execStmt s h with
    | (h', .completed) => execStmts ss h'
    | (h', .returned) => (h', .returned)

def execBlock : Block → List ε → List ε × Ending
  | ⟨statements, _⟩, h => execStmts statements h

end

def run (ss : List Stmt) (h : List ε) : List ε :=
  (M.execStmts ss h).1

theorem execStmts_cons_completed {s : Stmt} {h h' : List ε}
    (hs : M.execStmt s h = (h', .completed)) (ss : List Stmt) :
    M.execStmts (s :: ss) h = M.execStmts ss h' := by
  simp [execStmts, hs]

theorem execStmts_append {ss : List Stmt} {h h' : List ε}
    (hs : M.execStmts ss h = (h', .completed)) (ts : List Stmt) :
    M.execStmts (ss ++ ts) h = M.execStmts ts h' := by
  induction ss generalizing h with
  | nil =>
    cases hs
    rfl
  | cons s ss ih =>
    simp only [execStmts] at hs
    rw [List.cons_append, execStmts]
    cases he : M.execStmt s h with
    | mk h₁ ending =>
      rw [he] at hs
      cases ending with
      | completed => exact ih hs
      | returned => cases hs

end Machine

mutual

def Stmt.mayReturn : Stmt → Bool
  | .expr .. | .declare .. | .invoke _ => false
  | .block b | .allocationGuard _ b _ | .classGuard _ b _ => b.mayReturn
  | .ite _ t none _ => t.mayReturn
  | .ite _ t (some e) _ => t.mayReturn || e.mayReturn
  | .ret .. => true

def Stmt.anyMayReturn : List Stmt → Bool
  | [] => false
  | s :: ss => s.mayReturn || Stmt.anyMayReturn ss

def Block.mayReturn : Block → Bool
  | ⟨statements, _⟩ => Stmt.anyMayReturn statements

end

theorem Block.mayReturn_eq (b : Block) : b.mayReturn = Stmt.anyMayReturn b.statements := by
  cases b
  rfl

theorem Stmt.anyMayReturn_eq_false_iff {ss : List Stmt} :
    Stmt.anyMayReturn ss = false ↔ ∀ s ∈ ss, s.mayReturn = false := by
  induction ss with
  | nil => simp [Stmt.anyMayReturn]
  | cons s ss ih => simp [Stmt.anyMayReturn, ih]

namespace Machine

variable {ε : Type} (M : Machine ε)

section Completion

mutual

theorem execStmt_completed : (s : Stmt) → s.mayReturn = false → (h : List ε) →
    (M.execStmt s h).2 = .completed
  | .expr .., _, _ | .declare _ _ none _, _, _ | .declare _ _ (some _) _, _, _
  | .invoke _, _, _ => rfl
  | .block b, hb, h => execBlock_completed b hb h
  | .allocationGuard _ b _, hb, _ => execBlock_completed b hb _
  | .classGuard type b _, hb, h => by
    rw [execStmt]
    split
    · exact execBlock_completed b hb h
    · rfl
  | .ite c t none _, ht, h => by
    rw [execStmt]
    split
    · exact execStmt_completed t ht _
    · rfl
  | .ite c t (some e) _, hte, h => by
    obtain ⟨ht, he⟩ := Bool.or_eq_false_iff.mp hte
    rw [execStmt]
    split
    · exact execStmt_completed t ht _
    · exact execStmt_completed e he _

theorem execStmts_completed : (ss : List Stmt) → Stmt.anyMayReturn ss = false → (h : List ε) →
    (M.execStmts ss h).2 = .completed
  | [], _, _ => rfl
  | s :: ss, hss, h => by
    obtain ⟨hs, hrest⟩ := Bool.or_eq_false_iff.mp hss
    have hc : M.execStmt s h = ((M.execStmt s h).1, .completed) :=
      Prod.ext rfl (execStmt_completed s hs h)
    rw [M.execStmts_cons_completed hc]
    exact execStmts_completed ss hrest _

theorem execBlock_completed : (b : Block) → b.mayReturn = false → (h : List ε) →
    (M.execBlock b h).2 = .completed
  | ⟨statements, _⟩, hb, h => execStmts_completed statements hb h

end

/-- Statements without a return run to their end. -/
theorem execStmts_eq_run {ss : List Stmt} (hss : Stmt.anyMayReturn ss = false) (h : List ε) :
    M.execStmts ss h = (M.run ss h, .completed) :=
  Prod.ext rfl (M.execStmts_completed ss hss h)

end Completion

section Reading

/-- The machine that reads each expression as a rewriter gives it. -/
def reading (w : Rewriter Id) [w.KeepsForm] : Machine ε where
  evaluate h e := M.evaluate h (w.mapExpr e)
  holds h e := M.holds h (w.mapExpr e)
  declare := M.declare
  invoke h i := M.invoke h (w.mapInvocation i)
  register := M.register
  isExactly := M.isExactly
  evaluate_self h s := by rw [Rewriter.mapExpr_self, M.evaluate_self]
  evaluate_hook h procedure a s := by rw [Rewriter.mapExpr_hook, M.evaluate_hook]

variable {w : Rewriter Id} [w.KeepsForm]

mutual

theorem execStmt_mapStmt : (s : Stmt) → (h : List ε) →
    M.execStmt (w.mapStmt s) h = (M.reading w).execStmt s h
  | .expr e _, h => by rw [Rewriter.mapStmt_expr]; rfl
  | .block b, h => by rw [Rewriter.mapStmt_block]; exact execBlock_mapBlock b h
  | .declare _ _ none _, h | .declare _ _ (some _) _, h => by rw [Rewriter.mapStmt_declare]; rfl
  | .ite c t none _, h => by
    rw [Rewriter.mapStmt_ite]
    simp only [Option.map_none, execStmt, execStmt_mapStmt t]
    rfl
  | .ite c t (some e) _, h => by
    rw [Rewriter.mapStmt_ite]
    simp only [Option.map_some, execStmt, execStmt_mapStmt t, execStmt_mapStmt e]
    rfl
  | .ret none _, h | .ret (some _) _, h => by rw [Rewriter.mapStmt_ret]; rfl
  | .invoke i, h => by rw [Rewriter.mapStmt_invoke]; rfl
  | .allocationGuard i b _, h => by
    rw [Rewriter.mapStmt_allocationGuard]
    exact execBlock_mapBlock b _
  | .classGuard type b _, h => by
    rw [Rewriter.mapStmt_classGuard]
    simp only [execStmt, execBlock_mapBlock b]
    rfl

theorem execStmts_mapStmts : (ss : List Stmt) → (h : List ε) →
    M.execStmts (w.mapStmts ss) h = (M.reading w).execStmts ss h
  | [], _ => rfl
  | s :: ss, h => by
    rw [Rewriter.mapStmts_cons]
    simp only [execStmts, execStmt_mapStmt s, execStmts_mapStmts ss]

theorem execBlock_mapBlock : (b : Block) → (h : List ε) →
    M.execBlock (w.mapBlock b) h = (M.reading w).execBlock b h
  | ⟨statements, _⟩, h => by
    rw [Rewriter.mapBlock_eq]
    exact execStmts_mapStmts statements h

end

end Reading

end Machine

end ExplicitInit
