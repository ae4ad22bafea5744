import ExplicitInit.Proofs.EnclosingPlaces
import ExplicitInit.Proofs.RewrittenNodes

namespace ExplicitInit

namespace Expr

theorem implicitType?_form (e : Expr) : e.form.implicitType? = e.implicitType? := by
  cases e with
  | call receiver selector args m s =>
    cases receiver <;> cases m <;> rfl
  | _ => rfl

end Expr

namespace ClassDecl

variable {c : ClassDecl}

/-- How far outward the first enclosing instance of a type is; the innermost one has depth 0. -/
def depth? (c : ClassDecl) (type : TypeRef) : Option Nat :=
  c.enclosing.findIdx? (·.type.same type)

/-- The path to the enclosing instance at a depth, by looking up the link of each level. -/
def pathTo? (c : ClassDecl) : Nat → Option Expr
  | 0 => do
    let link ← c.enclosing[0]?
    return .fieldName (c.enclosingField link)
  | level + 1 => do
    let path ← c.pathTo? level
    let inner ← c.enclosing[level]?
    let link ← c.enclosing[level + 1]?
    return .access path (.ofInstance inner.type link.field)

theorem reachFrom?_drop {target : TypeRef} {links : List EnclosingLink} {level : Nat}
    {link : EnclosingLink} {here : Expr} (hd : c.enclosing.drop level = link :: links)
    (hp : c.pathTo? level = some here) :
    reachFrom? target here link.type links =
      ((link :: links).findIdx? (·.type.same target)).bind fun i => c.pathTo? (level + i) := by
  induction links generalizing level link here with
  | nil =>
    by_cases hs : link.type.same target = true <;>
      simp [reachFrom?, List.findIdx?_cons, hs, hp]
  | cons next rest ih =>
    by_cases hs : link.type.same target = true
    · simp [reachFrom?, List.findIdx?_cons, hs, hp]
    · have hnext : c.enclosing.drop (level + 1) = next :: rest := by
        rw [← List.drop_drop, hd]
        rfl
      have hlink : c.enclosing[level]? = some link := by
        rw [← List.head?_drop, hd]
        rfl
      have hlater : c.enclosing[level + 1]? = some next := by
        rw [← List.head?_drop, hnext]
        rfl
      have hpath : c.pathTo? (level + 1) =
          some (.access here (.ofInstance link.type next.field)) := by
        simp [pathTo?, hp, hlink, hlater]
      have hindex : (link :: next :: rest).findIdx? (·.type.same target) =
          ((next :: rest).findIdx? (·.type.same target)).map (· + 1) := by
        rw [List.findIdx?_cons, if_neg hs]
      rw [reachFrom?, if_neg hs, ih hnext hpath, hindex, Option.bind_map]
      congr 1
      funext i
      exact congrArg c.pathTo? (Nat.add_right_comm level 1 i)

theorem reach?_eq (target : TypeRef) : c.reach? target = (c.depth? target).bind c.pathTo? := by
  unfold reach? reachThrough? depth?
  cases he : c.enclosing with
  | nil => rfl
  | cons link links =>
    have hp : c.pathTo? 0 = some (.fieldName (c.enclosingField link)) := by simp [pathTo?, he]
    have hd : c.enclosing.drop 0 = link :: links := he
    refine (reachFrom?_drop hd hp).trans ?_
    simp only [Nat.zero_add]

end ClassDecl

section Reads

variable {c : ClassDecl}

/-- What stands within the place of an expression: the expression itself with its parts rewritten, a
path, a call with a receiver, or what stands within the place of a part. -/
theorem mem_nodes_mapExpr {e x : Expr} (hx : x ∈ ((enclosingRewriter c).mapExpr e).nodes) :
    (x.form = e.form ∧ c.reads e = false) ∨ c.IsPath x ∨
      (∃ r selector args m s, x = .call (some r) selector args m s) ∨
      ∃ p ∈ e.parts, x ∈ ((enclosingRewriter c).mapExpr p).nodes := by
  cases hr : c.reads e with
  | false =>
    rw [mapExpr_of_not_read hr, Rewriter.nodes_walkExpr] at hx
    rcases List.mem_cons.mp hx with rfl | hx
    · exact .inl ⟨Rewriter.form_walkExpr _ e, rfl⟩
    · exact .inr (.inr (.inr (List.mem_flatMap.mp hx)))
  | true =>
    obtain ⟨type, ht, he⟩ := ClassDecl.reads_eq_true_iff.mp hr
    obtain ⟨path, hp, -, hm⟩ := mapExpr_of_read ht he
    rw [hm] at hx
    rcases Expr.implicitType?_eq_some ht with
      ⟨y, f, s, rfl⟩ | ⟨y, s, rfl⟩ | ⟨selector, args, s, rfl⟩
    · exact .inr (.inl ((hp.onward _).nodes hx))
    · exact .inr (.inl (hp.nodes hx))
    · have hw : ((enclosingRewriter c).walkExpr
          (.call none selector args (some ⟨type, false⟩) s)).run.through path =
          .call (some path) selector (args.map (enclosingRewriter c).mapExpr)
            (some ⟨type, false⟩) s :=
        congrArg (Expr.call (some path) selector · (some ⟨type, false⟩) s)
          (Rewriter.mapExprs_eq_map _ args)
      rw [hw, Expr.nodes, Node.inner_eq] at hx
      rcases List.mem_cons.mp hx with rfl | hx
      · exact .inr (.inr (.inl ⟨_, _, _, _, _, rfl⟩))
      · obtain ⟨p, hpart, hxp⟩ := List.mem_flatMap.mp hx
        rcases List.mem_cons.mp hpart with rfl | hpart
        · exact .inr (.inl (hp.nodes hxp))
        · obtain ⟨a, ha, rfl⟩ := List.mem_map.mp hpart
          exact .inr (.inr (.inr ⟨a, ha, hxp⟩))

theorem forall_exprs_enclosing {P : Expr → Prop} {root : Node} (hpath : ∀ x, c.IsPath x → P x)
    (hcall : ∀ r selector args m s, P (.call (some r) selector args m s))
    (hkept : ∀ e ∈ root.exprs, c.reads e = false → ∀ x : Expr, x.form = e.form → P x) :
    ∀ x ∈ ((enclosingRewriter c).mapNode root).exprs, P x := by
  refine Rewriter.forall_exprs_mapNode fun e he hparts x hx => ?_
  rcases mem_nodes_mapExpr hx with ⟨hf, hn⟩ | hp | ⟨r, selector, args, m, s, rfl⟩ | ⟨p, hp, hx⟩
  · exact hkept e he hn x hf
  · exact hpath x hp
  · exact hcall r selector args m s
  · exact hparts p hp x hx

/-- How statements relate to statements of a class in which each read of an enclosing instance goes
along the path to it. -/
structure ClassDecl.ReadsExplicitly (c : ClassDecl) (ss ss' : List Stmt) : Prop where
  complete {e : Expr} (h : e ∈ Stmt.nodesAll ss') : c.reads e = false
  place {x : Node} (h : (Node.ofStmts ss).Within x) :
    ∃ x', Node.SamePlace (.ofStmts ss) (.ofStmts ss') x x'
  read {e : Expr} {x' : Node} {type : TypeRef}
    (h : Node.SamePlace (.ofStmts ss) (.ofStmts ss') (.expr e) x')
    (ht : e.implicitType? = some type) (he : c.encloses type = true) :
    ∃ (depth : Nat) (path e' : Expr), c.depth? type = some depth ∧ depth < c.enclosing.length ∧
      c.pathTo? depth = some path ∧ e'.form = e.form ∧ x' = .expr (e'.through path)
  kept {x x' : Node} (h : Node.SamePlace (.ofStmts ss) (.ofStmts ss') x x')
    (hn : ∀ e, x = .expr e → c.reads e = false) : x'.form = x.form
  name {x : String} {b : Option Binding} {s : Span} {x' : Node}
    (h : Node.SamePlace (.ofStmts ss) (.ofStmts ss') (.expr (.name x b s)) x')
    (hn : c.reads (.name x b s) = false) : x' = .expr (.name x b s)
  settled : c.withEnclosingReads ss' = ss'

theorem mapNode_ofStmts_enclosing (c : ClassDecl) (ss : List Stmt) :
    (enclosingRewriter c).mapNode (.ofStmts ss) = .ofStmts (c.withEnclosingReads ss) :=
  Rewriter.mapNode_ofStmts ss

theorem eq_mapNode_enclosing {ss : List Stmt} {x x' : Node}
    (h : Node.SamePlace (.ofStmts ss) (.ofStmts (c.withEnclosingReads ss)) x x') :
    x' = (enclosingRewriter c).mapNode x := by
  rw [← mapNode_ofStmts_enclosing] at h
  exact (enclosingRewriter_keepsPlaces c).eq_mapNode h

theorem reads_withEnclosingReads (hc : c.encloses c.type = false) {ss : List Stmt} :
    ∀ e ∈ Stmt.nodesAll (c.withEnclosingReads ss), c.reads e = false := by
  change ∀ e ∈ (Node.ofStmts (c.withEnclosingReads ss)).exprs, _
  rw [← mapNode_ofStmts_enclosing]
  refine forall_exprs_enclosing ?_ (fun _ _ _ _ _ => rfl) ?_
  · intro x hp
    refine eq_false_of_ne_true fun hr => ?_
    obtain ⟨type, ht, he⟩ := ClassDecl.reads_eq_true_iff.mp hr
    rw [hp.implicitType? ht, hc] at he
    cases he
  · intro e _ hn x hf
    rw [ClassDecl.reads, ← Expr.implicitType?_form, hf, Expr.implicitType?_form]
    exact hn

/-- In a class that is not within itself, no read of an enclosing instance is left without its path,
and nothing but the reads changes. -/
theorem withEnclosingReads_readsExplicitly (hc : c.encloses c.type = false) (ss : List Stmt) :
    c.ReadsExplicitly ss (c.withEnclosingReads ss) where
  complete h := reads_withEnclosingReads hc _ h
  place hx := by
    rw [← mapNode_ofStmts_enclosing]
    exact ⟨_, samePlace_enclosing hx⟩
  read {e} _ type h ht he := by
    obtain ⟨path, -, hpath, hm⟩ := mapExpr_of_read ht he
    have hr : (c.depth? type).bind c.pathTo? = some path :=
      (ClassDecl.reach?_eq type).symm.trans (hpath hc)
    obtain ⟨depth, hd, hp⟩ := Option.bind_eq_some_iff.mp hr
    obtain ⟨hlt, _⟩ := List.findIdx?_eq_some_iff_getElem.mp hd
    exact ⟨depth, path, _, hd, hlt, hp, Rewriter.form_walkExpr _ e,
      (eq_mapNode_enclosing h).trans (congrArg Node.expr hm)⟩
  kept {x} _ h hn := by
    rw [eq_mapNode_enclosing h, mapNode_of_not_read hn]
    exact Rewriter.form_walkNode _ x
  name h hn := (eq_mapNode_enclosing h).trans (congrArg Node.expr (mapExpr_of_not_read hn))
  settled := withEnclosingReads_of_not_read (reads_withEnclosingReads hc)

def knob : ClassDecl :=
  ((ClassDecl.ofType ⟨⟨3⟩, "Knob"⟩).nestedIn (.to ⟨⟨2⟩, "Panel"⟩)).nestedIn
    ⟨⟨⟨1⟩, "Desk"⟩, "this$1", "outer$"⟩

theorem withEnclosingReads_readsExplicitly_knob :
    knob.encloses knob.type = false ∧ knob.pathTo? 1 = some (.access
      (.fieldName (.ofInstance ⟨⟨3⟩, "Knob"⟩ "this$0")) (.ofInstance ⟨⟨2⟩, "Panel"⟩ "this$1")) ∧
    knob.ReadsExplicitly [.ofExpr (.enclosingInstance ⟨⟨1⟩, "Desk"⟩)]
      (knob.withEnclosingReads [.ofExpr (.enclosingInstance ⟨⟨1⟩, "Desk"⟩)]) :=
  ⟨by decide, rfl, withEnclosingReads_readsExplicitly (by decide) _⟩

end Reads

end ExplicitInit
