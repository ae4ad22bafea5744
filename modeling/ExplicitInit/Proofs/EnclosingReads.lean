import ExplicitInit.Enclosing
import ExplicitInit.Validation
import ExplicitInit.Proofs.Rewriting
import ExplicitInit.Proofs.Unchanged

namespace ExplicitInit

instance (c : ClassDecl) : (enclosingRewriter c).KeepsForm where
  statement _ _ := rfl
  block _ _ := rfl
  construction e _ he := by cases e <;> first | rfl | cases he

theorem withEnclosingReads_append (c : ClassDecl) (ss ts : List Stmt) :
    c.withEnclosingReads (ss ++ ts) = c.withEnclosingReads ss ++ c.withEnclosingReads ts :=
  Rewriter.mapStmts_append ss ts

namespace Expr

def memberOwner? : Expr → Option TypeRef
  | name _ (some (.field f)) _ => if f.isStatic then none else some f.owner
  | call none _ _ (some m) _ => if m.isStatic then none else some m.owner
  | _ => none

/-- The type of the instance that an expression reads without a path to it: the owner of the member
it means, or the type whose enclosing instance it names. -/
def implicitType? : Expr → Option TypeRef
  | name _ (some (.enclosing type)) _ => some type
  | e => e.memberOwner?

theorem implicitType?_eq_some {e : Expr} {type : TypeRef} (h : e.implicitType? = some type) :
    (∃ x f s, e = name x (some (.field ⟨type, f, false⟩)) s) ∨
      (∃ x s, e = name x (some (.enclosing type)) s) ∨
      ∃ selector args s, e = call none selector args (some ⟨type, false⟩) s := by
  cases e with
  | name x b s =>
    rcases b with _ | _ | ⟨owner, f, _ | _⟩ | _ | target
    all_goals cases h
    · exact .inl ⟨x, f, s, rfl⟩
    · exact .inr (.inl ⟨x, s, rfl⟩)
  | call receiver selector args m s =>
    rcases receiver with _ | r
    · rcases m with _ | ⟨owner, _ | _⟩
      all_goals cases h
      exact .inr (.inr ⟨selector, args, s, rfl⟩)
    · cases h
  | _ => cases h

end Expr

namespace ClassDecl

def reads (c : ClassDecl) (e : Expr) : Bool :=
  e.implicitType?.any c.encloses

variable {c : ClassDecl}

theorem reads_eq_true_iff {e : Expr} :
    c.reads e = true ↔ ∃ type, e.implicitType? = some type ∧ c.encloses type = true :=
  Option.any_eq_true ..

theorem encloses_of_not_read {e : Expr} (h : c.reads e = false) {type : TypeRef}
    (ht : e.implicitType? = some type) : c.encloses type = false := by
  rwa [reads, ht] at h

theorem encloses_eq_false_iff {type : TypeRef} :
    c.encloses type = false ↔ ∀ link ∈ c.enclosing, link.type.id ≠ type.id := by
  rw [encloses, List.any_eq_false]
  exact forall₂_congr fun link _ => not_congr TypeRef.same_iff

theorem reachFrom?_eq_none_iff {target owner : TypeRef} {here : Expr}
    {links : List EnclosingLink} : reachFrom? target here owner links = none ↔
      owner.same target = false ∧ links.any (·.type.same target) = false := by
  induction links generalizing here owner with
  | nil => by_cases hs : owner.same target = true <;> simp [reachFrom?, hs]
  | cons link links ih =>
    by_cases hs : owner.same target = true
    · simp [reachFrom?, hs]
    · rw [reachFrom?, if_neg hs, ih, List.any_cons, Bool.or_eq_false_iff]
      simp [hs]

theorem reachThrough?_eq_none_iff {here : EnclosingLink → Expr} {target : TypeRef} :
    c.reachThrough? here target = none ↔ c.encloses target = false := by
  unfold reachThrough? encloses
  split
  · rename_i he
    simp [he]
  · rename_i he
    rw [he, reachFrom?_eq_none_iff, List.any_cons, Bool.or_eq_false_iff]

theorem reach?_eq_none_iff {type : TypeRef} : c.reach? type = none ↔ c.encloses type = false :=
  reachThrough?_eq_none_iff

theorem reachReceiver?_eq_none_iff {owner : TypeRef} :
    c.reachReceiver? ⟨owner, false⟩ = none ↔ c.encloses owner = false :=
  reachThrough?_eq_none_iff

/-- Where the class is not within itself, the field of the innermost link is its own, so the path to
a receiver is the one that a name gets. -/
theorem reachReceiver?_eq (hc : c.encloses c.type = false) (owner : TypeRef) :
    c.reachReceiver? ⟨owner, false⟩ = c.reach? owner := by
  have hf (link : EnclosingLink) : c.reachField? (c.enclosingField link) = none := by
    simp [reachField?, enclosingField, FieldRef.ofInstance, reach?_eq_none_iff.mpr hc]
  simp [reachReceiver?, reach?, hf]

end ClassDecl

variable {c : ClassDecl}

theorem expression_of_not_read {e : Expr} {walk : Id Expr} (h : c.reads e = false)
    (hw : ∀ x b s, e = .name x b s → walk = pure e) :
    (enclosingRewriter c).expression e walk = walk := by
  cases e with
  | name x b s =>
    have hr : ∀ binding, b = some binding → c.reachName? binding = none := by
      rintro binding rfl
      rcases binding with _ | ⟨owner, f, _ | _⟩ | _ | type
      · rfl
      · simpa [ClassDecl.reachName?, ClassDecl.reachField?] using
          ClassDecl.reach?_eq_none_iff.mpr h
      · rfl
      · rfl
      · exact ClassDecl.reach?_eq_none_iff.mpr h
    cases b with
    | none => rfl
    | some binding =>
      rw [hw x _ s rfl]
      exact congrArg (Option.getD · _) (hr binding rfl)
  | call receiver selector args m s =>
    rcases receiver with _ | r
    · rcases m with _ | ⟨owner, _ | _⟩
      · rfl
      · have hr := ClassDecl.reachReceiver?_eq_none_iff.mpr h
        simp only [enclosingRewriter, hr]
      · rfl
    · rfl
  | _ => rfl

theorem withEnclosingReads_of_not_read {statements : List Stmt}
    (h : ∀ e ∈ Stmt.nodesAll statements, c.reads e = false) :
    c.withEnclosingReads statements = statements := by
  have he : ∀ e : Expr, (∀ x ∈ e.nodes, c.reads x = false) →
      (enclosingRewriter c).expression e (pure e) = pure e :=
    fun e hn => expression_of_not_read (hn e List.mem_cons_self) fun _ _ _ _ => rfl
  exact Rewriter.rewriteStmts_eq_pure ⟨he, fun _ => rfl, fun _ => rfl⟩ statements h

end ExplicitInit
