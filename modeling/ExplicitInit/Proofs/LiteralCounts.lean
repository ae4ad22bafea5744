import ExplicitInit.Proofs.StringMeaning
import Mathlib.Data.List.Forall2

namespace ExplicitInit

def unsettled (es : List Expr) : Nat :=
  es.countP (!·.isSettled)

theorem unsettled_append (es fs : List Expr) : unsettled (es ++ fs) = unsettled es + unsettled fs :=
  List.countP_append

theorem unsettled_of_settled {e : Expr} (h : e.isSettled = true) (es : List Expr) :
    unsettled (e :: es) = unsettled es :=
  List.countP_cons_of_neg (by simp [h])

section Joined

variable {P : Expr → Bool}

theorem countP_nodes_of_literals? {e : Expr} {ls : List StringLiteral} (h : e.literals? = some ls)
    (hP : ∀ left right span, P (.binary .concat left right span) = false) :
    e.nodes.countP P = ls.countP fun l => P (.string l.units l.span) := by
  fun_induction Expr.literals? e generalizing ls with
  | case1 units span =>
    cases Option.some.inj h
    simp [Expr.nodes, Expr.inner, List.countP_cons]
  | case2 left right span as hl bs hr ihl ihr =>
    cases Option.some.inj h
    change (Expr.binary .concat left right span :: (left.nodes ++ right.nodes)).countP P = _
    rw [List.countP_cons_of_neg (by simp [hP]), List.countP_append, List.countP_append, ihl hl,
      ihr hr]
  | case3 => simp at h
  | case4 => simp at h
  | case5 => simp at h

theorem countP_nodes_formatOf (ls : List StringLiteral) (span : Span)
    (hP : ∀ text args span, P (.formatString text args span) = false) :
    (formatOf ls span).nodes.countP P = ls.countP fun l => P l.numbered && !l.isInline := by
  rw [formatOf, Expr.nodes, List.countP_cons_of_neg (by simp [hP]), Node.inner_eq]
  change (((ls.filter (!·.isInline)).map StringLiteral.numbered).flatMap Expr.nodes).countP P = _
  have hn : ∀ l : StringLiteral, l.numbered.nodes = [l.numbered] := fun _ => rfl
  rw [List.flatMap_map, List.flatMap_congr fun l _ => hn l, ← List.map_eq_flatMap,
    List.countP_map, List.countP_filter]
  rfl

theorem unsettled_of_literals? {e : Expr} {ls : List StringLiteral} (h : e.literals? = some ls) :
    unsettled e.nodes = ls.countP (!·.isInline) :=
  countP_nodes_of_literals? h fun _ _ _ => rfl

end Joined

/-- Counts that agree wherever the respeller acts agree on whole trees. -/
theorem countP_respeller {P Q : Expr → Bool}
    (hform : ∀ e e' : Expr, e.isSettled = true → e'.form = e.form → Q e' = P e)
    (hliteral : ∀ units span, allInline units = false →
      Q (.unitString units span) = P (.string units span))
    (hjoined : ∀ (e : Expr) ls, e.literals? = some ls →
      (formatOf ls e.span).nodes.countP Q = e.nodes.countP P) (n : Node) :
    (respeller.mapNode n).exprs.countP Q = n.exprs.countP P := by
  induction n using Node.induction_on_parts with
  | h n ih =>
    have hwalk (hm : respeller.mapNode n = respeller.walkNode n)
        (hh : (respeller.walkNode n).here.countP Q = n.here.countP P) :
        (respeller.mapNode n).exprs.countP Q = n.exprs.countP P := by
      rw [hm, Node.exprs_eq, Node.exprs_eq n, Rewriter.parts_walkNode, List.countP_append,
        List.countP_append, hh, List.flatMap_map, List.countP_flatMap, List.countP_flatMap]
      exact congrArg (_ + List.sum ·) (List.map_congr_left ih)
    cases n with
    | stmt s => exact hwalk (respeller.mapNode_stmt s) rfl
    | block b => exact hwalk (respeller.mapNode_block b) rfl
    | expr e =>
      rcases mapExpr_respeller e with ⟨hs, hw⟩ | ⟨units, span, rfl, hu, hm⟩ | ⟨ls, hl, hm⟩
      · refine hwalk (congrArg Node.expr hw) ?_
        have he := hform e (respeller.walkExpr e).run hs (respeller.form_walkExpr e)
        simp [Rewriter.walkNode, Node.here, List.countP_cons, he]
      · have he := hliteral units span hu
        simp [Rewriter.mapNode, hm, Node.exprs, Expr.nodes, Expr.inner, List.countP_cons, he]
      · rw [Rewriter.mapNode, hm]
        exact hjoined e ls hl

def Expr.isUnitString : Expr → Bool
  | .unitString .. => true
  | _ => false

theorem Expr.isUnitString_form (e : Expr) : e.form.isUnitString = e.isUnitString := by
  cases e <;> rfl

theorem countP_isUnitString_respeller (n : Node) :
    (respeller.mapNode n).exprs.countP Expr.isUnitString =
      n.exprs.countP Expr.isUnitString + unsettled n.exprs := by
  have hboth : n.exprs.countP Expr.isUnitString + unsettled n.exprs =
      n.exprs.countP fun e => e.isUnitString || !e.isSettled := by
    have hs (e : Expr) (h : e.isUnitString = true) : e.isSettled = true := by
      cases e <;> first | rfl | cases h
    induction n.exprs with
    | nil => rfl
    | cons e es ih =>
      rw [unsettled] at *
      rw [List.countP_cons, List.countP_cons, List.countP_cons, ← ih]
      cases hu : e.isUnitString with
      | true => simp [hs e hu, Nat.add_right_comm]
      | false => simp [Nat.add_assoc]
  rw [hboth]
  refine countP_respeller ?_ ?_ ?_ n
  · intro e e' hs hf
    rw [← Expr.isUnitString_form e', hf, Expr.isUnitString_form, hs, Bool.not_true, Bool.or_false]
  · intro units span hu
    simp [Expr.isUnitString, Expr.isSettled, hu]
  · intro e ls hl
    rw [countP_nodes_formatOf ls e.span fun _ _ _ => rfl,
      countP_nodes_of_literals? hl fun _ _ _ => rfl]
    rfl

def Counts {α : Type} (x : StateM Nat α) (k : Nat) : Prop :=
  ∀ n, (x.run n).2 = n + k

namespace Counts

variable {α β : Type}

theorem pure (a : α) : Counts (Pure.pure a) 0 :=
  fun _ => rfl

theorem bind {x : StateM Nat α} {f : α → StateM Nat β} {j k : Nat} (hx : Counts x j)
    (hf : ∀ a, Counts (f a) k) : Counts (x >>= f) (j + k) := by
  intro n
  have h : (x >>= f).run n = (f (x.run n).1).run (x.run n).2 := rfl
  rw [h, hf, hx, Nat.add_assoc]

theorem map {x : StateM Nat α} {k : Nat} (hx : Counts x k) (f : α → β) :
    Counts (do let y ← x; return f y) k :=
  hx.bind fun _ => .pure _

theorem append {x : StateM Nat α} {f : α → StateM Nat β} {es fs : List Expr}
    (hx : Counts x (unsettled es)) (hf : ∀ a, Counts (f a) (unsettled fs)) :
    Counts (x >>= f) (unsettled (es ++ fs)) := by
  rw [unsettled_append]
  exact hx.bind hf

end Counts

section Counts

/-- A node adds itself to what its parts count; a mixture counts its literals without a walk. -/
theorem literalRewriter_counts (e : Expr) {walk : StateM Nat Expr}
    (h : Counts walk (unsettled e.inner)) :
    Counts (literalRewriter.expression e walk) (unsettled e.nodes) := by
  cases e with
  | string units span =>
    by_cases hu : allInline units = true
    · have hs : (Expr.string units span).isSettled = true := hu
      rw [Expr.nodes, unsettled_of_settled hs]
      simpa only [literalRewriter, hu, if_true] using h
    · intro n
      have hs : unsettled (Expr.string units span).nodes = 1 := by
        simp [unsettled, Expr.nodes, Expr.inner, Expr.isSettled, hu]
      rw [hs]
      simp only [literalRewriter, hu]
      rfl
  | binary op left right span =>
    cases hm : (Expr.binary op left right span).mixture? with
    | some ls =>
      intro n
      rw [unsettled_of_literals? (Option.filter_eq_some_iff.mp hm).1]
      simp only [literalRewriter, hm]
      rfl
    | none =>
      rw [Expr.nodes, unsettled_of_settled rfl]
      simpa only [literalRewriter, hm] using h
  | _ =>
    rw [Expr.nodes, unsettled_of_settled rfl]
    exact h

mutual

theorem walkExpr_counts : (e : Expr) → Counts (literalRewriter.walkExpr e) (unsettled e.inner)
  | .int .. | .float .. | .bool .. | .char .. | .null .. | .string .. | .name .. | .self ..
  | .unitString .. => .pure _
  | .fieldAccess r _ _ => (literalRewriter_counts r (walkExpr_counts r)).map _
  | .assign l r _ => (literalRewriter_counts l (walkExpr_counts l)).append fun _ =>
    (literalRewriter_counts r (walkExpr_counts r)).map _
  | .binary _ l r _ => (literalRewriter_counts l (walkExpr_counts l)).append fun _ =>
    (literalRewriter_counts r (walkExpr_counts r)).map _
  | .call none _ args _ _ => (rewriteExprs_counts args).map _
  | .call (some r) _ args _ _ => (literalRewriter_counts r (walkExpr_counts r)).append fun _ =>
    (rewriteExprs_counts args).map _
  | .new _ _ args none _ => (rewriteExprs_counts args).map _
  | .new _ _ args (some o) _ => (literalRewriter_counts o (walkExpr_counts o)).append fun _ =>
    (rewriteExprs_counts args).map _
  | .array _ elements _ => (rewriteExprs_counts elements).map _
  | .allocate _ _ args _ => (rewriteExprs_counts args).map _
  | .hook _ a _ => (literalRewriter_counts a (walkExpr_counts a)).map _
  | .formatString _ args _ => (rewriteExprs_counts args).map _

theorem rewriteExprs_counts :
    (es : List Expr) → Counts (literalRewriter.rewriteExprs es) (unsettled (Expr.nodesAll es))
  | [] => .pure _
  | e :: es => (literalRewriter_counts e (walkExpr_counts e)).append fun _ =>
    (rewriteExprs_counts es).map _

end

theorem rewriteExpr_counts (e : Expr) :
    Counts (literalRewriter.rewriteExpr e) (unsettled e.nodes) :=
  literalRewriter_counts e (walkExpr_counts e)

theorem walkInvocation_counts (i : Invocation) :
    Counts (literalRewriter.walkInvocation i) (unsettled (Expr.nodesAll i.args)) :=
  (rewriteExprs_counts i.args).map _

mutual

theorem walkStmt_counts : (s : Stmt) → Counts (literalRewriter.walkStmt s) (unsettled s.nodes)
  | .expr e _ => (rewriteExpr_counts e).map _
  | .block b => (walkBlock_counts b).map _
  | .declare _ _ none _ | .ret none _ => .pure _
  | .declare _ _ (some e) _ => (rewriteExpr_counts e).map _
  | .ite c t none _ => (rewriteExpr_counts c).append fun _ => (walkStmt_counts t).map _
  | .ite c t (some e) _ => by
    rw [Stmt.nodes, List.append_assoc]
    exact (rewriteExpr_counts c).append fun _ => (walkStmt_counts t).append fun _ =>
      (walkStmt_counts e).map _
  | .ret (some e) _ => (rewriteExpr_counts e).map _
  | .invoke i => (walkInvocation_counts i).map _
  | .allocationGuard i b _ => (walkInvocation_counts i).append fun _ => (walkBlock_counts b).map _
  | .classGuard _ b _ => (walkBlock_counts b).map _

theorem rewriteStmts_counts :
    (ss : List Stmt) → Counts (literalRewriter.rewriteStmts ss) (unsettled (Stmt.nodesAll ss))
  | [] => .pure _
  | s :: ss => (walkStmt_counts s).append fun _ => (rewriteStmts_counts ss).map _

theorem walkBlock_counts : (b : Block) → Counts (literalRewriter.walkBlock b) (unsettled b.nodes)
  | ⟨statements, _⟩ => (rewriteStmts_counts statements).map _

end

theorem rewriteBlock_counts (b : Block) :
    Counts (literalRewriter.rewriteBlock b) (unsettled b.nodes) :=
  walkBlock_counts b

end Counts

section Formats

theorem allInline_encodeChar {l : StringLiteral} (h : l.isInline = true) :
    ∀ c ∈ (Utf16.lossy l.units).toList, allInline (Utf16.encodeChar c) = true := by
  have hu : allInline l.units = true := h
  rw [← encode_lossy_of_isInline h, allInline, List.all_flatMap, List.all_eq_true] at hu
  exact hu

theorem allInline_formatPart (l : StringLiteral) :
    allInline (l.formatPart.flatMap Utf16.encodeChar) = true := by
  cases hl : l.isInline with
  | true =>
    have hp : l.formatPart = (Utf16.lossy l.units).toList.flatMap StringLiteral.formatChar :=
      if_pos hl
    rw [hp, List.flatMap_assoc, allInline, List.all_flatMap, List.all_eq_true]
    intro c hc
    have hcs := allInline_encodeChar hl c hc
    by_cases hs : c = '%'
    · subst hs
      decide
    · have hf : StringLiteral.formatChar c = [c] := if_neg hs
      rw [hf, List.flatMap_singleton]
      exact hcs
  | false =>
    have hp : l.formatPart = ['%', '@'] := by simp [StringLiteral.formatPart, hl]
    rw [hp]
    decide

theorem allInline_format (ls : List StringLiteral) :
    allInline (Utf16.encode (String.ofList (ls.flatMap StringLiteral.formatPart))) = true := by
  rw [Utf16.encode, String.toList_ofList, List.flatMap_assoc, allInline, List.all_flatMap,
    List.all_eq_true]
  exact fun l _ => allInline_formatPart l

end Formats

/-- How a body relates to a body with its literals respelled: no block gains or loses a statement,
and each format was in its place before or can be written out. -/
structure Block.RespellsTo (b b' : Block) : Prop where
  place {x : Block} (h : (Node.block b).Within (.block x)) :
    ∃ x', Node.SamePlace (.block b) (.block b') (.block x) (.block x')
  length {x x' : Block} (h : Node.SamePlace (.block b) (.block b') (.block x) (.block x')) :
    x'.length = x.length
  format {text : String} {args : List Expr} {s : Span}
    (h : (Node.block b').Within (.expr (.formatString text args s))) :
    (∃ args₀, Node.SamePlace (.block b) (.block b') (.expr (.formatString text args₀ s))
      (.expr (.formatString text args s))) ∨ allInline (Utf16.encode text) = true

def Member.withBody (b : Block) : Member → Member
  | .constructor k => .constructor { k with body := b }
  | .method f => .method { f with body := b }
  | m => m

structure Member.RespellsTo (m m' : Member) : Prop where
  kept (h : m.running? = none) : m' = m
  running {b : Block} (h : m.running? = some b) : ∃ b', m' = m.withBody b' ∧ b.RespellsTo b'

def ClassDecl.runningNodes (c : ClassDecl) : List Expr :=
  (c.members.filterMap Member.running?).flatMap Block.nodes

structure ClassDecl.RespellsTo (c c' : ClassDecl) (count : Nat) : Prop where
  header : c'.header = c.header
  members : List.Forall₂ Member.RespellsTo c.members c'.members
  settled : c'.IsSettled
  counted : count = unsettled c.runningNodes
  numbered : c'.runningNodes.countP Expr.isUnitString =
    c.runningNodes.countP Expr.isUnitString + count
  again : c'.respelled = (c', 0)

theorem Node.within_expr {e : Expr} {x : Node} (h : (Node.expr e).Within x) :
    ∃ y, x = .expr y := by
  induction h with
  | root => exact ⟨e, rfl⟩
  | part _ hx ih =>
    obtain ⟨y, rfl⟩ := ih
    obtain ⟨z, _, rfl⟩ := List.mem_map.mp hx
    exact ⟨z, rfl⟩

theorem form_eq_formatString {e : Expr} {text : String} {args : List Expr} {s : Span}
    (h : e.form = (Expr.formatString text args s).form) :
    ∃ args₀, e = .formatString text args₀ s := by
  cases e with
  | formatString text₀ args₀ s₀ =>
    obtain ⟨rfl, _, rfl⟩ := Expr.formatString.inj h
    exact ⟨args₀, rfl⟩
  | _ => cases h

theorem mapBlock_respellsTo (b : Block) : b.RespellsTo (respeller.mapBlock b) where
  place {x} h := by
    rcases Rewriter.samePlace_of_within (w := respeller) h with h | ⟨n, _, hne, p, hp, hpx⟩
    · exact ⟨_, h⟩
    -- Only literals lose their places, and no block is within them.
    · rcases mapNode_respeller n with hn | ⟨units, s, rfl, _⟩ | ⟨e, ls, rfl, _, _⟩
      · exact absurd hn hne
      · cases hp
      · obtain ⟨q, _, rfl⟩ := List.mem_map.mp hp
        obtain ⟨y, hy⟩ := Node.within_expr hpx
        cases hy
  length {x x'} h := by
    have hx : Node.block x' = respeller.mapNode (.block x) := respeller_keepsPlaces.eq_mapNode h
    rw [Node.block.inj hx, Rewriter.mapBlock_eq]
    exact Rewriter.length_mapStmts x.statements
  format {text args s} h := by
    rcases Rewriter.samePlace_of_within_mapNode
        (show (respeller.mapNode (.block b)).Within _ from h) with
      ⟨x, hx, hm⟩ | ⟨n, _, hne, p, hp, hpx⟩
    · cases x with
      | stmt t => cases hm
      | block t => cases hm
      | expr e =>
        rcases mapExpr_respeller e with ⟨_, hw⟩ | ⟨units, s', rfl, _, hu⟩ | ⟨ls, _, hf⟩
        · have hform := Rewriter.form_walkExpr respeller e
          rw [← hw, ← Node.expr.inj hm] at hform
          obtain ⟨args₀, rfl⟩ := form_eq_formatString hform.symm
          exact .inl ⟨args₀, hx⟩
        · cases (Node.expr.inj hm).trans hu
        · obtain ⟨rfl, _, _⟩ := Expr.formatString.inj ((Node.expr.inj hm).trans hf)
          exact .inr (allInline_format ls)
    · rcases mapNode_respeller n with hn | ⟨units, s', rfl, hn⟩ | ⟨e, ls, rfl, _, hn⟩
      · exact absurd hn hne
      · rw [hn] at hp
        cases hp
      · rw [hn] at hp
        obtain ⟨q, hq, rfl⟩ := List.mem_map.mp hp
        obtain ⟨l, _, rfl⟩ := List.mem_map.mp hq
        rcases Node.within_iff.mp hpx with hx | ⟨r, hr, _⟩
        · cases hx
        · cases hr

namespace Member

variable {m : Member} {b : Block}

theorem respelled_of_running? (h : m.running? = some b) :
    m.respelled = do let b' ← literalRewriter.rewriteBlock b; return m.withBody b' := by
  cases m with
  | constructor k =>
    cases Option.some.inj h
    rfl
  | method f =>
    by_cases hf : f.kind = .classSetup
    · simp only [running?, if_pos hf, Option.some.injEq] at h
      subst h
      simp only [respelled, if_pos hf]
      rfl
    · simp only [running?, if_neg hf] at h
      cases h
  | _ => cases h

theorem respelled_of_not_running (h : m.running? = none) : m.respelled = pure m := by
  cases m with
  | constructor k => cases h
  | method f =>
    by_cases hf : f.kind = .classSetup
    · simp only [running?, if_pos hf] at h
      cases h
    · simp only [respelled, if_neg hf]
  | _ => rfl

theorem respelled_counts (m : Member) :
    Counts m.respelled (unsettled (m.running?.toList.flatMap Block.nodes)) := by
  cases h : m.running? with
  | none =>
    rw [respelled_of_not_running h]
    exact .pure m
  | some b =>
    rw [respelled_of_running? h, Option.toList_some, List.flatMap_singleton]
    exact (rewriteBlock_counts b).map _

theorem adjusted_respellsTo (m : Member) : m.RespellsTo (m.adjusted respeller) where
  kept h := by
    have hg := ClassDecl.respelled_gives m 0
    rw [respelled_of_not_running h] at hg
    exact hg.symm
  running {b} h := by
    refine ⟨respeller.mapBlock b, ?_, mapBlock_respellsTo b⟩
    have hg := (rewriteBlock_gives b).map m.withBody 0
    rw [← respelled_of_running? h, ClassDecl.respelled_gives m 0] at hg
    exact hg

end Member

namespace ClassDecl

theorem mapM_respelled_counts (ms : List Member) : Counts (ms.mapM Member.respelled)
    (unsettled ((ms.filterMap Member.running?).flatMap Block.nodes)) := by
  induction ms with
  | nil => exact .pure []
  | cons m ms ih =>
    have hn : ((m :: ms).filterMap Member.running?).flatMap Block.nodes =
        m.running?.toList.flatMap Block.nodes ++
          (ms.filterMap Member.running?).flatMap Block.nodes := by
      cases h : m.running? <;> simp [h]
    rw [List.mapM_cons, hn]
    exact m.respelled_counts.append fun _ => ih.map _

theorem runningNodes_respelled (c : ClassDecl) : c.respelled.1.runningNodes =
    (c.members.filterMap Member.running?).flatMap fun b => (respeller.mapBlock b).nodes := by
  rw [runningNodes, members_respelled, List.filterMap_map]
  have hr : Member.running? ∘ Member.adjusted respeller =
      fun m => m.running?.map respeller.mapBlock := funext Member.running?_adjusted
  rw [hr, ← List.map_filterMap, List.flatMap_map]

theorem countP_isUnitString_respelled (c : ClassDecl) :
    c.respelled.1.runningNodes.countP Expr.isUnitString =
      c.runningNodes.countP Expr.isUnitString + unsettled c.runningNodes := by
  rw [runningNodes_respelled, runningNodes]
  induction c.members.filterMap Member.running? with
  | nil => rfl
  | cons b bs ih =>
    have hb := countP_isUnitString_respeller (.block b)
    simp only [List.flatMap_cons, List.countP_append, unsettled_append, ih]
    simp only [Rewriter.mapNode, Node.exprs] at hb
    omega

/-- Respelling leaves no literal that needs it, counts each of those that were there once, and
touches nothing but the bodies that run. -/
theorem respelled_respellsTo (c : ClassDecl) : c.RespellsTo c.respelled.1 c.respelled.2 := by
  have hcount : c.respelled.2 = unsettled c.runningNodes := by
    have h := mapM_respelled_counts c.members 0
    rw [Nat.zero_add] at h
    exact h
  refine ⟨rfl, ?_, isSettled_respelled c, hcount, ?_, respelled_of_settled (isSettled_respelled c)⟩
  · rw [members_respelled, List.forall₂_map_right_iff, List.forall₂_same]
    exact fun m _ => m.adjusted_respellsTo
  · rw [hcount]
    exact countP_isUnitString_respelled c

end ClassDecl

end ExplicitInit
