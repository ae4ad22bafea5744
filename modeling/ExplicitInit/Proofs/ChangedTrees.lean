import ExplicitInit.Enclosing
import ExplicitInit.Proofs.Nodes
import ExplicitInit.Proofs.Respelling
import ExplicitInit.Proofs.TypeChanges

namespace ExplicitInit

variable {ρ : TypeRef → TypeRef}

section Always

@[simp] theorem Expr.changedAll_always (es : List Expr) :
    Expr.changedAll (.always ρ) es = es.map (Expr.changed (.always ρ)) := by
  induction es with
  | nil => rfl
  | cons e es ih => exact congrArg _ ih

@[simp] theorem Stmt.changedAll_always (ss : List Stmt) :
    Stmt.changedAll (.always ρ) ss = ss.map (Stmt.changed (.always ρ)) := by
  induction ss with
  | nil => rfl
  | cons s ss ih => exact congrArg _ ih

theorem Block.changed_always (b : Block) :
    b.changed (.always ρ) = ⟨b.statements.map (Stmt.changed (.always ρ)), b.span⟩ := by
  obtain ⟨statements, s⟩ := b
  exact congrArg (Block.mk · s) (Stmt.changedAll_always statements)

theorem Expr.span_changed (g : TypeChange) (e : Expr) : (e.changed g).span = e.span := by
  cases e with
  | call receiver selector args m s => cases receiver <;> rfl
  | new type selector args o s => cases o <;> rfl
  | _ => rfl

end Always

namespace Rewriter

variable {m : Type → Type} [Monad m] {w w' : Rewriter m}

/-- The rewriter `w'` does with a node whose types have changed what `w` does with the node itself,
and neither looks at anything but expressions. -/
structure FollowsChange (ρ : TypeRef → TypeRef) (w w' : Rewriter m) : Prop where
  expression : ∀ e walk,
    w'.expression (e.changed (.always ρ)) (Expr.changed (.always ρ) <$> walk) =
      Expr.changed (.always ρ) <$> w.expression e walk
  statement : ∀ s walk, w.statement s walk = walk
  statement' : ∀ s walk, w'.statement s walk = walk
  block : ∀ b walk, w.block b walk = walk
  block' : ∀ b walk, w'.block b walk = walk

mutual

theorem walkExpr_changed [LawfulMonad m] (hw : FollowsChange ρ w w') : (e : Expr) →
    w'.walkExpr (e.changed (.always ρ)) = Expr.changed (.always ρ) <$> w.walkExpr e
  | .int .. | .float .. | .bool .. | .char .. | .null .. | .string .. | .self .. | .unitString ..
  | .name .. => by simp [walkExpr, Expr.changed]
  | .fieldAccess r f s => by simp [walkExpr, Expr.changed, walkExpr_changed hw r, hw.expression]
  | .assign l r s => by
    simp [walkExpr, Expr.changed, walkExpr_changed hw l, walkExpr_changed hw r, hw.expression]
  | .binary op l r s => by
    simp [walkExpr, Expr.changed, walkExpr_changed hw l, walkExpr_changed hw r, hw.expression]
  | .call none selector args method s => by
    simp [walkExpr, Expr.changed, rewriteExprs_changed hw args]
  | .call (some r) selector args method s => by
    simp [walkExpr, Expr.changed, walkExpr_changed hw r, rewriteExprs_changed hw args,
      hw.expression]
  | .new type selector args none s => by
    simp [walkExpr, Expr.changed, rewriteExprs_changed hw args]
  | .new type selector args (some o) s => by
    simp [walkExpr, Expr.changed, walkExpr_changed hw o, rewriteExprs_changed hw args,
      hw.expression]
  | .array type args s => by simp [walkExpr, Expr.changed, rewriteExprs_changed hw args]
  | .allocate callee selector args s => by
    simp [walkExpr, Expr.changed, rewriteExprs_changed hw args]
  | .hook procedure a s => by simp [walkExpr, Expr.changed, walkExpr_changed hw a, hw.expression]
  | .formatString format args s => by
    simp [walkExpr, Expr.changed, rewriteExprs_changed hw args]

theorem rewriteExprs_changed [LawfulMonad m] (hw : FollowsChange ρ w w') : (es : List Expr) →
    w'.rewriteExprs (es.map (Expr.changed (.always ρ))) =
      List.map (Expr.changed (.always ρ)) <$> w.rewriteExprs es
  | [] => by simp [rewriteExprs]
  | e :: es => by
    simp [rewriteExprs, walkExpr_changed hw e, rewriteExprs_changed hw es, hw.expression]

end

theorem rewriteExpr_changed [LawfulMonad m] (hw : FollowsChange ρ w w') (e : Expr) :
    w'.rewriteExpr (e.changed (.always ρ)) = Expr.changed (.always ρ) <$> w.rewriteExpr e := by
  rw [rewriteExpr, walkExpr_changed hw, hw.expression]
  rfl

mutual

theorem walkStmt_changed [LawfulMonad m] (hw : FollowsChange ρ w w') : (s : Stmt) →
    w'.walkStmt (s.changed (.always ρ)) = Stmt.changed (.always ρ) <$> w.walkStmt s
  | .expr e s => by simp [walkStmt, Stmt.changed, rewriteExpr_changed hw]
  | .block b => by simp [walkStmt, Stmt.changed, walkBlock_changed hw b, hw.block, hw.block']
  | .declare x type none s => by simp [walkStmt, Stmt.changed]
  | .declare x type (some e) s => by simp [walkStmt, Stmt.changed, rewriteExpr_changed hw]
  | .ite c t none s => by
    simp [walkStmt, Stmt.changed, rewriteExpr_changed hw, walkStmt_changed hw t, hw.statement,
      hw.statement']
  | .ite c t (some e) s => by
    simp [walkStmt, Stmt.changed, rewriteExpr_changed hw, walkStmt_changed hw t,
      walkStmt_changed hw e, hw.statement, hw.statement']
  | .ret none s => by simp [walkStmt, Stmt.changed]
  | .ret (some e) s => by simp [walkStmt, Stmt.changed, rewriteExpr_changed hw]
  | .invoke i => by
    simp [walkStmt, Stmt.changed, Invocation.changed, walkInvocation, rewriteExprs_changed hw]
  | .allocationGuard i b s => by
    simp [walkStmt, Stmt.changed, Invocation.changed, walkInvocation, rewriteExprs_changed hw,
      walkBlock_changed hw b, hw.block, hw.block']
  | .classGuard type b s => by
    simp [walkStmt, Stmt.changed, walkBlock_changed hw b, hw.block, hw.block']

theorem rewriteStmts_changed [LawfulMonad m] (hw : FollowsChange ρ w w') : (ss : List Stmt) →
    w'.rewriteStmts (ss.map (Stmt.changed (.always ρ))) =
      List.map (Stmt.changed (.always ρ)) <$> w.rewriteStmts ss
  | [] => by simp [rewriteStmts]
  | s :: ss => by
    simp [rewriteStmts, walkStmt_changed hw s, rewriteStmts_changed hw ss, hw.statement,
      hw.statement']

theorem walkBlock_changed [LawfulMonad m] (hw : FollowsChange ρ w w') : (b : Block) →
    w'.walkBlock (b.changed (.always ρ)) = Block.changed (.always ρ) <$> w.walkBlock b
  | ⟨statements, s⟩ => by simp [walkBlock, Block.changed, rewriteStmts_changed hw statements]

end

theorem rewriteBlock_changed [LawfulMonad m] (hw : FollowsChange ρ w w') (b : Block) :
    w'.rewriteBlock (b.changed (.always ρ)) = Block.changed (.always ρ) <$> w.rewriteBlock b := by
  rw [rewriteBlock, hw.block', walkBlock_changed hw, rewriteBlock, hw.block]

end Rewriter

section Nodes

mutual

theorem Expr.inner_changed :
    (e : Expr) → (e.changed (.always ρ)).inner = e.inner.map (Expr.changed (.always ρ))
  | .int .. | .float .. | .bool .. | .char .. | .null .. | .string .. | .name .. | .self ..
  | .unitString .. => rfl
  | .fieldAccess r _ _ => by simp [Expr.changed, Expr.inner, Expr.inner_changed r]
  | .assign l r _ => by
    simp [Expr.changed, Expr.inner, Expr.inner_changed l, Expr.inner_changed r]
  | .binary _ l r _ => by
    simp [Expr.changed, Expr.inner, Expr.inner_changed l, Expr.inner_changed r]
  | .call none _ args _ _ => by simp [Expr.changed, Expr.inner, Expr.nodesAll_changed args]
  | .call (some r) _ args _ _ => by
    simp [Expr.changed, Expr.inner, Expr.inner_changed r, Expr.nodesAll_changed args]
  | .new _ _ args none _ => by simp [Expr.changed, Expr.inner, Expr.nodesAll_changed args]
  | .new _ _ args (some o) _ => by
    simp [Expr.changed, Expr.inner, Expr.inner_changed o, Expr.nodesAll_changed args]
  | .array _ args _ => by simp [Expr.changed, Expr.inner, Expr.nodesAll_changed args]
  | .allocate _ _ args _ => by simp [Expr.changed, Expr.inner, Expr.nodesAll_changed args]
  | .hook _ a _ => by simp [Expr.changed, Expr.inner, Expr.inner_changed a]
  | .formatString _ args _ => by simp [Expr.changed, Expr.inner, Expr.nodesAll_changed args]

theorem Expr.nodesAll_changed : (es : List Expr) →
    Expr.nodesAll (es.map (Expr.changed (.always ρ))) =
      (Expr.nodesAll es).map (Expr.changed (.always ρ))
  | [] => rfl
  | e :: es => by simp [Expr.nodesAll, Expr.inner_changed e, Expr.nodesAll_changed es]

end

theorem Expr.nodes_changed (e : Expr) :
    (e.changed (.always ρ)).nodes = e.nodes.map (Expr.changed (.always ρ)) :=
  congrArg _ (Expr.inner_changed e)

theorem Expr.optionalNodes_changed (e : Option Expr) :
    Expr.optionalNodes (e.map (Expr.changed (.always ρ))) =
      (Expr.optionalNodes e).map (Expr.changed (.always ρ)) := by
  cases e with
  | none => rfl
  | some e => exact Expr.nodes_changed e

mutual

theorem Stmt.nodes_changed :
    (s : Stmt) → (s.changed (.always ρ)).nodes = s.nodes.map (Expr.changed (.always ρ))
  | .expr e _ => by simp [Stmt.changed, Stmt.nodes, Expr.nodes_changed e]
  | .block b => by simp [Stmt.changed, Stmt.nodes, Block.nodes_changed b]
  | .declare _ _ e _ => Expr.optionalNodes_changed e
  | .ite c t none _ => by
    simp [Stmt.changed, Stmt.nodes, Expr.nodes_changed c, Stmt.nodes_changed t]
  | .ite c t (some e) _ => by
    simp [Stmt.changed, Stmt.nodes, Expr.nodes_changed c, Stmt.nodes_changed t,
      Stmt.nodes_changed e]
  | .ret e _ => Expr.optionalNodes_changed e
  | .invoke i => by
    simp [Stmt.changed, Stmt.nodes, Invocation.changed, Expr.nodesAll_changed i.args]
  | .allocationGuard i b _ => by
    simp [Stmt.changed, Stmt.nodes, Invocation.changed, Expr.nodesAll_changed i.args,
      Block.nodes_changed b]
  | .classGuard _ b _ => by simp [Stmt.changed, Stmt.nodes, Block.nodes_changed b]

theorem Stmt.nodesAll_changed : (ss : List Stmt) →
    Stmt.nodesAll (ss.map (Stmt.changed (.always ρ))) =
      (Stmt.nodesAll ss).map (Expr.changed (.always ρ))
  | [] => rfl
  | s :: ss => by simp [Stmt.nodesAll, Stmt.nodes_changed s, Stmt.nodesAll_changed ss]

theorem Block.nodes_changed :
    (b : Block) → (b.changed (.always ρ)).nodes = b.nodes.map (Expr.changed (.always ρ))
  | ⟨statements, _⟩ => by simp [Block.changed, Block.nodes, Stmt.nodesAll_changed statements]

end

end Nodes

section Respelling

theorem Expr.literals?_changed (g : TypeChange) (e : Expr) :
    (e.changed g).literals? = e.literals? := by
  fun_induction Expr.literals? e generalizing g with
  | case1 units span => rfl
  | case2 left right span ls hl rs hr ihl ihr =>
    simp [Expr.changed, Expr.literals?, ihl, ihr, hl, hr]
  | case3 left right span ls hl hr ihl ihr =>
    simp [Expr.changed, Expr.literals?, ihl, ihr, hl, hr]
  | case4 left right span hl ihl => simp [Expr.changed, Expr.literals?, ihl, hl]
  | case5 e hstring hconcat =>
    cases e with
    | string units span => exact (hstring units span rfl).elim
    | binary op l r span =>
      cases op with
      | concat => exact (hconcat l r span rfl).elim
      | _ => rfl
    | call receiver selector args m s => cases receiver <;> rfl
    | new type selector args o s => cases o <;> rfl
    | _ => rfl

theorem Expr.mixture?_changed (g : TypeChange) (e : Expr) :
    (e.changed g).mixture? = e.mixture? := by
  rw [Expr.mixture?, Expr.literals?_changed]
  rfl

theorem formatOf_changed (ls : List StringLiteral) (span : Span) :
    (formatOf ls span).changed (.always ρ) = formatOf ls span := by
  have hargs : ((ls.filter (!·.isInline)).map StringLiteral.numbered).map
        (Expr.changed (.always ρ)) =
      (ls.filter (!·.isInline)).map StringLiteral.numbered := by
    rw [List.map_map]
    rfl
  rw [formatOf, Expr.changed, TypeChange.below_always, Expr.changedAll_always, hargs]

theorem literalRewriter_changed (e : Expr) (walk : StateM Nat Expr) :
    literalRewriter.expression (e.changed (.always ρ)) (Expr.changed (.always ρ) <$> walk) =
      Expr.changed (.always ρ) <$> literalRewriter.expression e walk := by
  cases e with
  | string units span =>
    by_cases hu : allInline units = true
    · simp [literalRewriter, Expr.changed, hu]
    · simp [literalRewriter, Expr.changed, hu]
  | binary op l r span =>
    have hm : (Expr.binary op (l.changed (.always ρ)) (r.changed (.always ρ)) span).mixture? =
        (Expr.binary op l r span).mixture? :=
      Expr.mixture?_changed (.always ρ) (.binary op l r span)
    cases hx : (Expr.binary op l r span).mixture? with
    | none => simp [literalRewriter, Expr.changed, hm, hx]
    | some ls => simp [literalRewriter, Expr.changed, hm, hx, formatOf_changed]
  | call receiver selector args m s => cases receiver <;> rfl
  | new type selector args o s => cases o <;> rfl
  | _ => rfl

theorem Member.respelled_changed (m : Member) :
    (m.changed (.always ρ)).respelled = Member.changed (.always ρ) <$> m.respelled := by
  have hb : ∀ b : Block, literalRewriter.rewriteBlock (b.changed (.always ρ)) =
      Block.changed (.always ρ) <$> literalRewriter.rewriteBlock b :=
    Rewriter.rewriteBlock_changed ⟨literalRewriter_changed, fun _ _ => rfl, fun _ _ => rfl,
      fun _ _ => rfl, fun _ _ => rfl⟩
  cases m with
  | constructor k => simp [Member.respelled, Member.changed, Constructor.changed, hb]
  | method f =>
    by_cases hf : f.kind = .classSetup
    · simp [Member.respelled, Member.changed, Method.changed, hf, hb]
    · simp [Member.respelled, Member.changed, Method.changed, hf]
  | field f => simp [Member.respelled, Member.changed]
  | block b => simp [Member.respelled, Member.changed]

end Respelling

section Enclosing

/-- A change under which types are the same exactly if they were the same before. -/
def KeepsSame (ρ : TypeRef → TypeRef) : Prop :=
  ∀ a b, (ρ a).same (ρ b) = a.same b

namespace ClassDecl

variable (hρ : KeepsSame ρ) (c : ClassDecl)

theorem enclosing_changed :
    (c.changed (.always ρ)).enclosing = c.enclosing.map (EnclosingLink.changed (.always ρ)) :=
  changedEach_always _ _ _

include hρ

theorem reachFrom?_changed (target : TypeRef) (here : Expr) (type : TypeRef)
    (links : List EnclosingLink) :
    reachFrom? (ρ target) (here.changed (.always ρ)) (ρ type)
        (links.map (EnclosingLink.changed (.always ρ))) =
      (reachFrom? target here type links).map (Expr.changed (.always ρ)) := by
  induction links generalizing here type with
  | nil =>
    rw [List.map_nil, reachFrom?, reachFrom?, hρ]
    split <;> rfl
  | cons link links ih =>
    rw [List.map_cons, reachFrom?, reachFrom?, hρ]
    split
    · rfl
    · exact ih (.access here (.ofInstance type link.field)) link.type

theorem reachThrough?_changed {here here' : EnclosingLink → Expr}
    (hh : ∀ link, here' (link.changed (.always ρ)) = (here link).changed (.always ρ))
    (target : TypeRef) :
    (c.changed (.always ρ)).reachThrough? here' (ρ target) =
      (c.reachThrough? here target).map (Expr.changed (.always ρ)) := by
  unfold reachThrough?
  rw [enclosing_changed]
  cases c.enclosing with
  | nil => rfl
  | cons link rest =>
    rw [List.map_cons]
    dsimp only
    rw [hh]
    exact reachFrom?_changed hρ target (here link) link.type rest

theorem reach?_changed (target : TypeRef) :
    (c.changed (.always ρ)).reach? (ρ target) =
      (c.reach? target).map (Expr.changed (.always ρ)) :=
  reachThrough?_changed hρ c (fun _ => rfl) target

theorem reachField?_changed (f : FieldRef) :
    (c.changed (.always ρ)).reachField? (f.changed ρ) =
      (c.reachField? f).map (Expr.changed (.always ρ)) := by
  have howner : (f.changed ρ).owner = ρ f.owner := rfl
  have hstatic : (f.changed ρ).isStatic = f.isStatic := rfl
  rw [reachField?, reachField?, howner, hstatic, reach?_changed hρ]
  split
  · rfl
  · cases c.reach? f.owner <;> rfl

theorem reachName?_changed (b : Binding) :
    (c.changed (.always ρ)).reachName? (b.changed ρ) =
      (c.reachName? b).map (Expr.changed (.always ρ)) := by
  cases b with
  | localVar => rfl
  | field f => exact reachField?_changed hρ c f
  | type t => rfl
  | enclosing t => exact reach?_changed hρ c t

theorem reachReceiver?_changed (m : MethodRef) :
    (c.changed (.always ρ)).reachReceiver? (m.changed ρ) =
      (c.reachReceiver? m).map (Expr.changed (.always ρ)) := by
  have hfield (link : EnclosingLink) :
      (c.changed (.always ρ)).enclosingField (link.changed (.always ρ)) =
        (c.enclosingField link).changed ρ := rfl
  have howner : (m.changed ρ).owner = ρ m.owner := rfl
  have hstatic : (m.changed ρ).isStatic = m.isStatic := rfl
  rw [reachReceiver?, reachReceiver?, howner, hstatic]
  split
  · rfl
  · refine reachThrough?_changed hρ c (fun link => ?_) m.owner
    rw [hfield, reachField?_changed hρ]
    cases c.reachField? (c.enclosingField link) <;> rfl

end ClassDecl

theorem Expr.withReceiver_changed (receiver e : Expr) :
    Expr.withReceiver (receiver.changed (.always ρ)) (e.changed (.always ρ)) =
      (Expr.withReceiver receiver e).changed (.always ρ) := by
  cases e with
  | call r selector args m s => cases r <;> rfl
  | new type selector args o s => cases o <;> rfl
  | _ => rfl

theorem enclosingRewriter_changed (hρ : KeepsSame ρ) (c : ClassDecl) (e walk : Expr) :
    (enclosingRewriter (c.changed (.always ρ))).expression (e.changed (.always ρ))
        (walk.changed (.always ρ)) =
      Expr.changed (.always ρ) ((enclosingRewriter c).expression e walk) := by
  cases e with
  | name x binding s =>
    cases binding with
    | none => rfl
    | some b =>
      have hb := ClassDecl.reachName?_changed hρ c b
      change ((c.changed (.always ρ)).reachName? (b.changed ρ)).getD _ =
        Expr.changed (.always ρ) ((c.reachName? b).getD _)
      rw [hb]
      cases c.reachName? b <;> rfl
  | call receiver selector args method s =>
    cases receiver with
    | some r => rfl
    | none =>
      cases method with
      | none => rfl
      | some m =>
        have hm := ClassDecl.reachReceiver?_changed hρ c m
        cases hr : c.reachReceiver? m with
        | none =>
          rw [hr, Option.map_none] at hm
          simp only [enclosingRewriter, Expr.changed, Option.map_some, TypeChange.always_apply,
            hr, hm]
        | some receiver =>
          rw [hr, Option.map_some] at hm
          simp only [enclosingRewriter, Expr.changed, Option.map_some, TypeChange.always_apply,
            hr, hm]
          exact Expr.withReceiver_changed receiver walk
  | new type selector args o s => cases o <;> rfl
  | _ => rfl

theorem withEnclosingReads_changed (hρ : KeepsSame ρ) (c : ClassDecl) (statements : List Stmt) :
    (c.changed (.always ρ)).withEnclosingReads (statements.map (Stmt.changed (.always ρ))) =
      (c.withEnclosingReads statements).map (Stmt.changed (.always ρ)) :=
  Rewriter.rewriteStmts_changed ⟨enclosingRewriter_changed hρ c, fun _ _ => rfl, fun _ _ => rfl,
    fun _ _ => rfl, fun _ _ => rfl⟩ statements

end Enclosing

end ExplicitInit
