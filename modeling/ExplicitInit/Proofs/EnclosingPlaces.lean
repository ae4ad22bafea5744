import ExplicitInit.Proofs.EnclosingReads
import ExplicitInit.Proofs.Parts

namespace ExplicitInit

namespace Expr

def through : Expr → Expr → Expr
  | name _ (some (.field f)) _, path => access path f
  | name _ (some (.enclosing _)) _, path => path
  | call none selector args m s, path => call (some path) selector args m s
  | e, _ => e

end Expr

namespace ClassDecl

variable {c : ClassDecl}

/-- A path along the links, from a field of the class itself. -/
inductive IsPath (c : ClassDecl) : Expr → Prop
  | start (link : EnclosingLink) : IsPath c (.fieldName (c.enclosingField link))
  | onward {path : Expr} (h : IsPath c path) (f : FieldRef) : IsPath c (.access path f)

theorem IsPath.nodes {path x : Expr} (h : c.IsPath path) (hx : x ∈ path.nodes) : c.IsPath x := by
  induction h with
  | start link =>
    obtain rfl := List.mem_singleton.mp hx
    exact .start link
  | onward hp f ih =>
    rcases List.mem_cons.mp hx with rfl | hx
    · exact hp.onward f
    · exact ih hx

theorem IsPath.implicitType? {path : Expr} (h : c.IsPath path) {type : TypeRef}
    (ht : path.implicitType? = some type) : type = c.type := by
  cases h with
  | start link => exact (Option.some.inj ht).symm
  | onward _ f => cases ht

theorem isPath_reachFrom? {target owner : TypeRef} {here path : Expr} {links : List EnclosingLink}
    (hh : c.IsPath here) (h : reachFrom? target here owner links = some path) : c.IsPath path := by
  induction links generalizing here owner with
  | nil =>
    rw [reachFrom?] at h
    split at h
    · exact Option.some.inj h ▸ hh
    · cases h
  | cons link links ih =>
    rw [reachFrom?] at h
    split at h
    · exact Option.some.inj h ▸ hh
    · exact ih (hh.onward _) h

theorem isPath_reachThrough? {here : EnclosingLink → Expr} {target : TypeRef} {path : Expr}
    (hh : ∀ link, c.IsPath (here link)) (h : c.reachThrough? here target = some path) :
    c.IsPath path := by
  unfold reachThrough? at h
  split at h
  · cases h
  · exact isPath_reachFrom? (hh _) h

theorem isPath_reachReceiver? {m : MethodRef} {path : Expr}
    (h : c.reachReceiver? m = some path) : c.IsPath path := by
  unfold reachReceiver? at h
  split at h
  · cases h
  · refine isPath_reachThrough? (fun link => ?_) h
    cases hf : c.reachField? (c.enclosingField link) with
    | none => exact .start link
    | some path =>
      obtain ⟨r, hr, rfl⟩ := Option.map_eq_some_iff.mp hf
      exact (isPath_reachThrough? .start hr).onward _

end ClassDecl

theorem mapExpr_implicitCall (c : ClassDecl) (selector : String) (args : List Expr) (m : MethodRef)
    (s : Span) : (enclosingRewriter c).mapExpr (.call none selector args (some m) s) =
      .call (c.reachReceiver? m) selector ((enclosingRewriter c).mapExprs args) (some m) s := by
  change (enclosingRewriter c).expression (.call none selector args (some m) s)
    (.call none selector ((enclosingRewriter c).mapExprs args) (some m) s) = _
  unfold enclosingRewriter
  dsimp only
  cases c.reachReceiver? m <;> rfl

theorem mapExpr_call (c : ClassDecl) (receiver : Option Expr) (selector : String)
    (args : List Expr) (m : Option MethodRef) (s : Span) :
    ∃ receiver', (enclosingRewriter c).mapExpr (.call receiver selector args m s) =
      .call receiver' selector ((enclosingRewriter c).mapExprs args) m s := by
  cases receiver with
  | some r => exact ⟨_, rfl⟩
  | none =>
    cases m with
    | none => exact ⟨none, rfl⟩
    | some m => exact ⟨_, mapExpr_implicitCall c selector args m s⟩

section Places

variable {c : ClassDecl}

theorem mapExpr_of_not_read {e : Expr} (h : c.reads e = false) :
    (enclosingRewriter c).mapExpr e = ((enclosingRewriter c).walkExpr e).run :=
  expression_of_not_read h (by rintro x b s rfl; rfl)

/-- A read of an enclosing instance gives way to a read along a path; where the class is not within
itself, along the path to that instance. -/
theorem mapExpr_of_read {e : Expr} {type : TypeRef} (ht : e.implicitType? = some type)
    (he : c.encloses type = true) :
    ∃ path, c.IsPath path ∧ (c.encloses c.type = false → c.reach? type = some path) ∧
      (enclosingRewriter c).mapExpr e = ((enclosingRewriter c).walkExpr e).run.through path := by
  have hreach : ∃ path, c.reach? type = some path := by
    refine Option.ne_none_iff_exists'.mp fun hn => ?_
    rw [ClassDecl.reach?_eq_none_iff.mp hn] at he
    cases he
  obtain ⟨path, hr⟩ := hreach
  have hp : c.IsPath path := ClassDecl.isPath_reachThrough? .start hr
  rcases Expr.implicitType?_eq_some ht with ⟨x, f, s, rfl⟩ | ⟨x, s, rfl⟩ | ⟨selector, args, s, rfl⟩
  · have hn : c.reachName? (.field ⟨type, f, false⟩) = some (.access path ⟨type, f, false⟩) := by
      simp [ClassDecl.reachName?, ClassDecl.reachField?, hr]
    exact ⟨path, hp, fun _ => hr, congrArg (Option.getD · _) hn⟩
  · have hn : c.reachName? (.enclosing type) = some path := hr
    exact ⟨path, hp, fun _ => hr, congrArg (Option.getD · _) hn⟩
  -- The path to a receiver starts from a name that is itself looked up in the chain.
  · cases hm : c.reachReceiver? ⟨type, false⟩ with
    | none =>
      rw [ClassDecl.reachReceiver?_eq_none_iff.mp hm] at he
      cases he
    | some path =>
      refine ⟨path, ClassDecl.isPath_reachReceiver? hm, fun hc => ?_, ?_⟩
      · rw [← hm, ClassDecl.reachReceiver?_eq hc]
      · rw [mapExpr_implicitCall, hm]
        rfl

theorem mapNode_of_not_read {x : Node} (hn : ∀ e, x = .expr e → c.reads e = false) :
    (enclosingRewriter c).mapNode x = (enclosingRewriter c).walkNode x := by
  cases x with
  | expr e => exact congrArg Node.expr (mapExpr_of_not_read (hn e rfl))
  | stmt s => exact Rewriter.mapNode_stmt _ s
  | block b => exact Rewriter.mapNode_block _ b

theorem form_mapExpr_of_read {e : Expr} {type : TypeRef} (ht : e.implicitType? = some type)
    (he : c.encloses type = true) : ((enclosingRewriter c).mapExpr e).form ≠ e.form := by
  obtain ⟨path, hp, -, hm⟩ := mapExpr_of_read ht he
  rw [hm]
  rcases Expr.implicitType?_eq_some ht with ⟨x, f, s, rfl⟩ | ⟨x, s, rfl⟩ | ⟨selector, args, s, rfl⟩
  · exact nofun
  · cases hp <;> exact nofun
  · exact nofun

theorem read_or_not (c : ClassDecl) (x : Node) :
    (∀ e, x = .expr e → c.reads e = false) ∨
      ∃ e type, x = .expr e ∧ e.implicitType? = some type ∧ c.encloses type = true := by
  by_cases h : ∃ e, x = .expr e ∧ c.reads e = true
  · obtain ⟨e, hx, hr⟩ := h
    obtain ⟨type, ht, he⟩ := ClassDecl.reads_eq_true_iff.mp hr
    exact .inr ⟨e, type, hx, ht, he⟩
  · exact .inl fun e hx => eq_false_of_ne_true fun hr => h ⟨e, hx, hr⟩

theorem enclosingRewriter_keepsPlaces (c : ClassDecl) : (enclosingRewriter c).KeepsPlaces where
  form n := by
    rcases read_or_not c n with hn | ⟨e, type, rfl, ht, he⟩
    · exact .inl (mapNode_of_not_read hn)
    · exact .inr fun hf => form_mapExpr_of_read ht he (Node.expr.inj hf)
  args {receiver} _ selector _ args _ m _ s _ h := by
    obtain ⟨receiver', hm⟩ := mapExpr_call c receiver selector args m s
    exact (Expr.call.inj (hm.symm.trans h)).2.2.1.symm

theorem samePlace_enclosing {root x : Node} (h : root.Within x) :
    Node.SamePlace root ((enclosingRewriter c).mapNode root) x
      ((enclosingRewriter c).mapNode x) := by
  induction h with
  | root => exact .root
  | @part n x h hx ih =>
    rcases read_or_not c n with hn | ⟨e, type, rfl, ht, -⟩
    · exact Rewriter.samePlace_part ih (mapNode_of_not_read hn) hx
    · rcases Expr.implicitType?_eq_some ht with
        ⟨y, f, s, rfl⟩ | ⟨y, s, rfl⟩ | ⟨selector, args, s, rfl⟩
      · cases hx
      · cases hx
      -- The call gets a receiver, so only the arguments correspond.
      · obtain ⟨a, ha, rfl⟩ := List.mem_map.mp hx
        obtain ⟨i, hi⟩ := List.mem_iff_getElem?.mp (show a ∈ args from ha)
        obtain ⟨receiver', hm⟩ := mapExpr_call c none selector args (some ⟨type, false⟩) s
        rw [Rewriter.mapNode, hm] at ih
        refine ih.argument hi ?_
        rw [Rewriter.mapExprs_eq_map, List.getElem?_map, hi]
        rfl

end Places

end ExplicitInit
