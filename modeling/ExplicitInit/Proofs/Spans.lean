import ExplicitInit.Proofs.EnclosingPaths
import ExplicitInit.Proofs.MixedConcatenations

namespace ExplicitInit

namespace Expr

def isName : Expr → Bool
  | name .. => true
  | _ => false

theorem span_form (e : Expr) : e.form.span = e.span := by
  cases e <;> rfl

theorem isJoin_form (e : Expr) : e.form.isJoin = e.isJoin := by
  cases e with
  | binary op l r s => cases op <;> rfl
  | _ => rfl

theorem span_walkExpr (w : Rewriter Id) (e : Expr) : (w.walkExpr e).run.span = e.span := by
  rw [← span_form, w.form_walkExpr, span_form]

end Expr

theorem within_ofStmts_iff {ss : List Stmt} {e : Expr} :
    (Node.ofStmts ss).Within (.expr e) ↔ e ∈ Stmt.nodesAll ss :=
  Node.within_expr_iff

section Literals

structure RespellsInPlace (ss ss' : List Stmt) : Prop where
  /-- Only what is joined to literals and to nothing else may lose its place, to one format. -/
  place {e : Expr} (he : e ∈ Stmt.nodesAll ss) :
    (∃ e', Node.SamePlace (.ofStmts ss) (.ofStmts ss') (.expr e) (.expr e')) ∨
      ∃ join text args, Node.SamePlace (.ofStmts ss) (.ofStmts ss') (.expr join)
          (.expr (.formatString text args join.span)) ∧
        (∀ x ∈ join.leaves, x.isString = true) ∧ e ∈ join.inner
  span {e e' : Expr} (h : Node.SamePlace (.ofStmts ss) (.ofStmts ss') (.expr e) (.expr e')) :
    e'.span = e.span
  args {join : Expr} {text : String} {args : List Expr} {s : Span}
    (h : Node.SamePlace (.ofStmts ss) (.ofStmts ss') (.expr join)
      (.expr (.formatString text args s))) (hj : join.isJoin = true) :
    args.map Expr.span = (join.leaves.filter (!·.isSettled)).map Expr.span

theorem span_mapExpr_respeller (e : Expr) : (respeller.mapExpr e).span = e.span := by
  rcases mapExpr_respeller e with ⟨_, hw⟩ | ⟨units, span, rfl, _, hs⟩ | ⟨ls, _, hf⟩
  · rw [hw, Expr.span_walkExpr]
  · rw [hs]
    rfl
  · rw [hf]
    rfl

theorem span_args_of_join {join : Expr} {text : String} {args : List Expr} {s : Span}
    (hj : join.isJoin = true) (h : respeller.mapExpr join = .formatString text args s) :
    args.map Expr.span = (join.leaves.filter (!·.isSettled)).map Expr.span := by
  rcases mapExpr_respeller join with ⟨_, hw⟩ | ⟨units, span, rfl, _⟩ | ⟨ls, hl, hf⟩
  · have hform := respeller.form_walkExpr join
    rw [← hw, h] at hform
    rw [← Expr.isJoin_form, ← hform] at hj
    cases hj
  · cases hj
  · obtain ⟨-, rfl, -⟩ := Expr.formatString.inj (hf.symm.trans h)
    rw [Expr.leaves_of_literals? hl, List.filter_map, List.map_map, List.map_map]
    rfl

theorem respellsInPlace (ss : List Stmt) : RespellsInPlace ss (respeller.mapStmts ss) := by
  have hplaced {e e' : Expr} (h : Node.SamePlace (.ofStmts ss) (.ofStmts (respeller.mapStmts ss))
      (.expr e) (.expr e')) : e' = respeller.mapExpr e := by
    rw [← Rewriter.mapNode_ofStmts] at h
    exact Node.expr.inj (respeller_keepsPlaces.eq_mapNode h)
  refine ⟨fun {e} he => ?_, fun h => ?_, fun h hj => span_args_of_join hj (hplaced h).symm⟩
  · rw [← Rewriter.mapNode_ofStmts]
    rcases samePlace_respeller (within_ofStmts_iff.mpr he) with
      h | ⟨join, ls, hjoin, hl, p, hp, hpe⟩
    · exact .inl ⟨_, h⟩
    · refine .inr ⟨join, _, _, hjoin, ?_, ?_⟩
      · rw [Expr.leaves_of_literals? hl]
        exact List.forall_mem_map.mpr fun _ _ => rfl
      · rw [Node.inner_eq]
        exact List.mem_flatMap.mpr ⟨p, hp, Node.within_expr_iff.mp hpe⟩
  · rw [hplaced h, span_mapExpr_respeller]

end Literals

section Reads

variable {c : ClassDecl}

theorem ClassDecl.IsPath.span {path : Expr} (h : c.IsPath path) : path.span = .synthetic := by
  cases h <;> rfl

theorem span_mapExpr_enclosing (c : ClassDecl) (e : Expr) :
    ((enclosingRewriter c).mapExpr e).span =
      if e.isName ∧ c.reads e then .synthetic else e.span := by
  cases hr : c.reads e with
  | false => rw [if_neg (by simp), mapExpr_of_not_read hr, Expr.span_walkExpr]
  | true =>
    obtain ⟨type, ht, he⟩ := ClassDecl.reads_eq_true_iff.mp hr
    obtain ⟨path, hp, -, hm⟩ := mapExpr_of_read ht he
    rw [hm]
    rcases Expr.implicitType?_eq_some ht with
      ⟨x, f, s, rfl⟩ | ⟨x, s, rfl⟩ | ⟨selector, args, s, rfl⟩
    · rfl
    · exact hp.span
    · rfl

structure ReadsInPlace (c : ClassDecl) (ss ss' : List Stmt) : Prop where
  place {e : Expr} (he : e ∈ Stmt.nodesAll ss) :
    ∃ e', Node.SamePlace (.ofStmts ss) (.ofStmts ss') (.expr e) (.expr e')
  span_iff {e e' : Expr} (h : Node.SamePlace (.ofStmts ss) (.ofStmts ss') (.expr e) (.expr e')) :
    e'.span = e.span ↔ (e.isName = true → c.reads e = true → e.span = .synthetic)

theorem readsInPlace (c : ClassDecl) (ss : List Stmt) :
    ReadsInPlace c ss (c.withEnclosingReads ss) := by
  refine ⟨fun he => ?_, fun {e e'} h => ?_⟩
  · rw [← mapNode_ofStmts_enclosing]
    exact ⟨_, samePlace_enclosing (within_ofStmts_iff.mpr he)⟩
  · rw [Node.expr.inj (eq_mapNode_enclosing h), span_mapExpr_enclosing]
    by_cases hr : e.isName ∧ c.reads e
    · rw [if_pos hr]
      exact ⟨fun hs _ _ => hs.symm, fun hs => (hs hr.1 hr.2).symm⟩
    · rw [if_neg hr]
      exact iff_of_true rfl fun hn hc => absurd ⟨hn, hc⟩ hr

end Reads

/-- Respelling keeps the span in each place. Making reads of enclosing instances explicit does so
too, except for a name with a span of its own that such a read takes away. -/
theorem rewriting_keepsSpans_iff (c : ClassDecl) (ss : List Stmt) (count : Nat) :
    RespellsInPlace ss ((literalRewriter.rewriteStmts ss).run count).1 ∧
      ReadsInPlace c ss (c.withEnclosingReads ss) := by
  rw [rewriteStmts_gives ss count]
  exact ⟨respellsInPlace ss, readsInPlace c ss⟩

def ledge : ClassDecl :=
  (ClassDecl.ofType ⟨⟨1⟩, "Ledge"⟩).nestedIn (.to ⟨⟨2⟩, "Window"⟩)

def windowHeight : Expr :=
  .name "height" (some (.field (.ofInstance ⟨⟨2⟩, "Window"⟩ "height"))) ⟨40, 46, 3, 9⟩

/-- The read along the path has no place in the source text. -/
theorem not_keepsSpan_windowHeight :
    ledge.isInner = true ∧ ∃ e', Node.SamePlace (.ofStmts [.ofExpr windowHeight])
        (.ofStmts (ledge.withEnclosingReads [.ofExpr windowHeight])) (.expr windowHeight)
        (.expr e') ∧ e'.span = .synthetic ∧ e'.span ≠ windowHeight.span := by
  have hplace : Node.SamePlace (.ofStmts [.ofExpr windowHeight])
      (.ofStmts (ledge.withEnclosingReads [.ofExpr windowHeight])) (.expr windowHeight)
      (.expr ((enclosingRewriter ledge).mapExpr windowHeight)) := by
    rw [← mapNode_ofStmts_enclosing]
    exact samePlace_enclosing (within_ofStmts_iff.mpr List.mem_cons_self)
  have hspan : ((enclosingRewriter ledge).mapExpr windowHeight).span = .synthetic := by
    rw [span_mapExpr_enclosing, if_pos (by decide)]
  refine ⟨rfl, _, hplace, hspan, ?_⟩
  rw [hspan]
  decide

section Assignments

namespace Span

/-- Both ends of a span lie within a region. -/
def LiesIn (s region : Span) : Prop :=
  (region.start ≤ s.start ∧ s.start ≤ region.stop) ∧
    region.start ≤ s.stop ∧ s.stop ≤ region.stop

instance (s region : Span) : Decidable (s.LiesIn region) :=
  inferInstanceAs (Decidable (_ ∧ _))

theorem LiesIn.self {s region : Span} (h : s.LiesIn region) : region.LiesIn region := by
  unfold LiesIn at *
  omega

/-- What stands in no source text is merged as if it stood at the beginning of the text. -/
theorem synthetic_merge (s : Span) : synthetic.merge s = ⟨0, s.stop, 0, 0⟩ := by
  simp [merge, synthetic]

theorem synthetic_merge_liesIn_iff {s region : Span} (h : s.LiesIn region) :
    (synthetic.merge s).LiesIn region ↔ region.start = 0 := by
  rw [synthetic_merge]
  unfold LiesIn at *
  dsimp only
  omega

end Span

namespace ClassDecl

/-- A field with an initializer inside the declaration moves as a statement with the span of the
declaration. The assignment in it ends inside the declaration, but it begins there only if the
declaration begins the text. -/
theorem preamble_liesIn_iff {c : ClassDecl} {side : Side} {f : Field} {e : Expr}
    (hf : .field f ∈ c.members) (hside : f.side c = side) (hmoves : f.stays c = false)
    (he : f.initializer = some e) (hin : e.span.LiesIn f.span) :
    ∃ target span, .expr (.assign target e span) f.span ∈ c.preamble side ∧
      c.moved side (.field f) = some (.expr (.assign target e span) f.span) ∧
      f.span.LiesIn f.span ∧ f.span.start ≤ span.stop ∧ span.stop ≤ f.span.stop ∧
      (span.LiesIn f.span ↔ f.span.start = 0) := by
  have hmoved : c.moved side (.field f) = some (c.fieldAssignment side f e) := by
    simp [moved, hside, hmoves, he]
  have hstop : (Span.synthetic.merge e.span).stop = e.span.stop := by
    rw [Span.synthetic_merge]
  refine ⟨_, _, List.mem_filterMap.mpr ⟨_, hf, hmoved⟩, hmoved, hin.self, ?_, ?_,
    Span.synthetic_merge_liesIn_iff hin⟩
  · exact hstop.symm ▸ hin.2.1
  · exact hstop.symm ▸ hin.2.2

def pressure (span initializer : Span) : Field :=
  { Field.ofName "pressure" "int" with initializer := some (.int 3 initializer), span }

def gauge (f : Field) : ClassDecl :=
  (ofType ⟨⟨1⟩, "Gauge"⟩).push (.field f)

theorem preamble_liesIn_iff_gauge :
    ∃ target span, .expr (.assign target (.int 3 ⟨15, 16, 1, 16⟩) span) ⟨0, 17, 1, 1⟩ ∈
        (gauge (pressure ⟨0, 17, 1, 1⟩ ⟨15, 16, 1, 16⟩)).preamble .ofInstance ∧
      span.LiesIn ⟨0, 17, 1, 1⟩ := by
  have hfield : .field (pressure ⟨0, 17, 1, 1⟩ ⟨15, 16, 1, 16⟩) ∈
      (gauge (pressure ⟨0, 17, 1, 1⟩ ⟨15, 16, 1, 16⟩)).members := List.mem_cons_self
  have hside : (pressure ⟨0, 17, 1, 1⟩ ⟨15, 16, 1, 16⟩).side
      (gauge (pressure ⟨0, 17, 1, 1⟩ ⟨15, 16, 1, 16⟩)) = .ofInstance := rfl
  obtain ⟨target, span, hmem, _, _, _, _, hspan⟩ :=
    preamble_liesIn_iff hfield hside rfl rfl (by decide)
  exact ⟨target, span, hmem, hspan.mpr rfl⟩

/-- Further down in the text, the assignment reaches back before the declaration. -/
theorem not_liesIn_gauge :
    (⟨35, 36, 3, 16⟩ : Span).LiesIn ⟨20, 37, 3, 1⟩ ∧ ∃ target,
      (gauge (pressure ⟨20, 37, 3, 1⟩ ⟨35, 36, 3, 16⟩)).preamble .ofInstance =
          [.expr (.assign target (.int 3 ⟨35, 36, 3, 16⟩) ⟨0, 36, 0, 0⟩) ⟨20, 37, 3, 1⟩] ∧
        ¬ (⟨0, 36, 0, 0⟩ : Span).LiesIn ⟨20, 37, 3, 1⟩ :=
  ⟨by decide, _, rfl, by decide⟩

end ClassDecl

end Assignments

end ExplicitInit
