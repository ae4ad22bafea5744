import ExplicitInit.Proofs.EnclosingPaths

namespace ExplicitInit

theorem Expr.implicitType?_of_memberOwner? {e : Expr} {type : TypeRef}
    (h : e.memberOwner? = some type) : e.implicitType? = some type := by
  cases e with
  | name x b s =>
    rcases b with _ | _ | _ | _ | target
    all_goals first | exact h | cases h
  | _ => exact h

def ClassDecl.hasMembersOf (c : ClassDecl) (type : TypeRef) : Bool :=
  c.type.same type || c.superclass.any (·.same type)

/-- How statements relate to statements of a class in which each member of the class itself and of
its superclass is still that of the instance itself. -/
structure ClassDecl.LeavesInherited (c : ClassDecl) (ss ss' : List Stmt) : Prop where
  place {x : Node} (h : (Node.ofStmts ss).Within x) :
    ∃ x', Node.SamePlace (.ofStmts ss) (.ofStmts ss') x x'
  field {x : String} {f : FieldRef} {s : Span} {x' : Node}
    (h : Node.SamePlace (.ofStmts ss) (.ofStmts ss') (.expr (.name x (some (.field f)) s)) x')
    (hf : f.isStatic = false) (hm : c.hasMembersOf f.owner = true) :
    x' = .expr (.name x (some (.field f)) s)
  call {selector : String} {args : List Expr} {m : MethodRef} {s : Span} {x' : Node}
    (h : Node.SamePlace (.ofStmts ss) (.ofStmts ss')
      (.expr (.call none selector args (some m) s)) x')
    (hs : m.isStatic = false) (hm : c.hasMembersOf m.owner = true) :
    ∃ args', x' = .expr (.call none selector args' (some m) s)

variable {c : ClassDecl}

/-- A member of the class itself or of its superclass is left to the instance itself exactly if the
type that declares it does not enclose the class. -/
theorem withEnclosingReads_leavesInherited_iff (ss : List Stmt) :
    c.LeavesInherited ss (c.withEnclosingReads ss) ↔
      ∀ e ∈ Stmt.nodesAll ss, ∀ type, e.memberOwner? = some type → c.hasMembersOf type = true →
        c.encloses type = false := by
  constructor
  · intro h e he type ht hm
    refine eq_false_of_ne_true fun hc => ?_
    obtain ⟨x', hx⟩ := h.place (Node.within_expr_iff.mpr he)
    -- A member of an enclosing type gets a path, so what is in its place is not what was there.
    obtain ⟨path, -, -, hread⟩ :=
      mapExpr_of_read (Expr.implicitType?_of_memberOwner? ht) hc
    have hx' := (eq_mapNode_enclosing hx).trans (congrArg Node.expr hread)
    rcases Expr.implicitType?_eq_some (Expr.implicitType?_of_memberOwner? ht) with
      ⟨x, f, s, rfl⟩ | ⟨x, s, rfl⟩ | ⟨selector, args, s, rfl⟩
    · cases (h.field hx rfl hm).symm.trans hx'
    · cases ht
    · obtain ⟨args', hkept⟩ := h.call hx rfl hm
      cases hkept.symm.trans hx'
  · intro h
    have hkept {e : Expr} {x' : Node} {type : TypeRef}
        (hx : Node.SamePlace (.ofStmts ss) (.ofStmts (c.withEnclosingReads ss)) (.expr e) x')
        (ht : e.memberOwner? = some type) (hm : c.hasMembersOf type = true) :
        x' = .expr ((enclosingRewriter c).walkExpr e).run := by
      have hn : c.reads e = false := by
        rw [ClassDecl.reads, Expr.implicitType?_of_memberOwner? ht]
        exact h e (Node.within_expr_iff.mp hx.within) type ht hm
      exact (eq_mapNode_enclosing hx).trans (congrArg Node.expr (mapExpr_of_not_read hn))
    refine ⟨fun hx => ?_, fun {x f s x'} hx hf hm => ?_, fun {selector args m s x'} hx hs hm => ?_⟩
    · rw [← mapNode_ofStmts_enclosing]
      exact ⟨_, samePlace_enclosing hx⟩
    · exact hkept hx (by simp [Expr.memberOwner?, hf]) hm
    · exact ⟨_, hkept hx (by simp [Expr.memberOwner?, hs]) hm⟩

def alcove : ClassDecl :=
  ((ClassDecl.ofType ⟨⟨1⟩, "Alcove"⟩).extending ⟨⟨2⟩, "Room"⟩).nestedIn (.to ⟨⟨2⟩, "Room"⟩)

def alcoveSizing : Stmt :=
  .ofExpr (.assignment (.fieldName (.ofInstance ⟨⟨2⟩, "Room"⟩ "width")) (.int 4 .synthetic))

/-- The width of an alcove is taken for that of the room it is in. -/
theorem not_leavesInherited_alcove :
    alcove.isInner = true ∧ alcove.superclass = some ⟨⟨2⟩, "Room"⟩ ∧
      ¬alcove.LeavesInherited [alcoveSizing] (alcove.withEnclosingReads [alcoveSizing]) := by
  refine ⟨rfl, rfl, fun h => ?_⟩
  have hwidth : Node.SamePlace (.ofStmts [alcoveSizing])
      (.ofStmts (alcove.withEnclosingReads [alcoveSizing]))
      (.expr (.fieldName (.ofInstance ⟨⟨2⟩, "Room"⟩ "width")))
      (.expr (.access (.fieldName (.ofInstance ⟨⟨1⟩, "Alcove"⟩ "this$0"))
        (.ofInstance ⟨⟨2⟩, "Room"⟩ "width"))) :=
    .part (i := 0) (.part (i := 0) (.part (i := 0) .root rfl rfl rfl) rfl rfl rfl) rfl rfl rfl
  cases h.field hwidth rfl (by decide)

end ExplicitInit
