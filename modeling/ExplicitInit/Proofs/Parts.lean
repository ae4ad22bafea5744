import ExplicitInit.Proofs.Rewriting

namespace ExplicitInit

inductive Node where
  | expr (e : Expr)
  | stmt (s : Stmt)
  | block (b : Block)

namespace Expr

def parts : Expr → List Expr
  | int .. | float .. | bool .. | char .. | null .. | string .. | name .. | self ..
  | unitString .. => []
  | fieldAccess r _ _ => [r]
  | assign l r _ => [l, r]
  | binary _ l r _ => [l, r]
  | call receiver _ args _ _ => receiver.toList ++ args
  | new _ _ args enclosing _ => enclosing.toList ++ args
  | array _ elements _ => elements
  | allocate _ _ args _ => args
  | hook _ a _ => [a]
  | formatString _ args _ => args

/-- What stands for a part in a form. -/
def hole : Expr :=
  null .synthetic

def form : Expr → Expr
  | fieldAccess _ f s => fieldAccess hole f s
  | assign _ _ s => assign hole hole s
  | binary op _ _ s => binary op hole hole s
  | call receiver selector args method s =>
    call (receiver.map fun _ => hole) selector (args.map fun _ => hole) method s
  | new type selector args enclosing s =>
    new type selector (args.map fun _ => hole) (enclosing.map fun _ => hole) s
  | array type elements s => array type (elements.map fun _ => hole) s
  | allocate callee selector args s => allocate callee selector (args.map fun _ => hole) s
  | hook procedure _ s => hook procedure hole s
  | formatString format args s => formatString format (args.map fun _ => hole) s
  | e => e

end Expr

def Invocation.form (i : Invocation) : Invocation :=
  { i with args := i.args.map fun _ => .hole }

namespace Block

def hole : Block :=
  empty

def form (b : Block) : Block :=
  { b with statements := b.statements.map fun _ => .block hole }

end Block

namespace Stmt

def hole : Stmt :=
  block .hole

def parts : Stmt → List Node
  | expr e _ => [.expr e]
  | block b => [.block b]
  | declare _ _ e _ => e.toList.map .expr
  | ite c t e _ => .expr c :: .stmt t :: e.toList.map .stmt
  | ret e _ => e.toList.map .expr
  | invoke i => i.args.map .expr
  | allocationGuard i b _ => i.args.map .expr ++ [.block b]
  | classGuard _ b _ => [.block b]

def form : Stmt → Stmt
  | expr _ s => expr .hole s
  | block _ => block .hole
  | declare x type e s => declare x type (e.map fun _ => .hole) s
  | ite _ _ e s => ite .hole hole (e.map fun _ => hole) s
  | ret e s => ret (e.map fun _ => .hole) s
  | invoke i => invoke i.form
  | allocationGuard i _ s => allocationGuard i.form .hole s
  | classGuard type _ s => classGuard type .hole s

end Stmt

namespace Node

def parts : Node → List Node
  | expr e => e.parts.map expr
  | stmt s => s.parts
  | block b => b.statements.map stmt

def form : Node → Node
  | expr e => expr e.form
  | stmt s => stmt s.form
  | block b => block b.form

theorem sizeOf_exprPart {e x : Expr} (h : x ∈ e.parts) : sizeOf x < sizeOf e := by
  cases e with
  | fieldAccess r f s | hook procedure r s =>
    obtain rfl := List.mem_singleton.mp h
    simp
    omega
  | assign l r s | binary op l r s =>
    rcases List.mem_cons.mp h with rfl | h
    · simp
      omega
    · obtain rfl := List.mem_singleton.mp h
      simp
      omega
  | call first selector args method s | new type selector args first s =>
    rcases List.mem_append.mp h with hf | ha
    · obtain rfl := Option.mem_toList.mp hf
      simp
      omega
    · have := List.sizeOf_lt_of_mem ha
      simp
      omega
  | array type args s | allocate callee selector args s | formatString format args s =>
    have := List.sizeOf_lt_of_mem (show x ∈ args from h)
    simp
    omega
  | _ => cases h

theorem sizeOf_optionalPart {α : Type} [SizeOf α] {o : Option α} {f : α → Node} {x : Node}
    (hf : ∀ a, sizeOf (f a) = 1 + sizeOf a) (h : x ∈ o.toList.map f) :
    sizeOf x ≤ sizeOf o := by
  obtain ⟨a, ha, rfl⟩ := List.mem_map.mp h
  obtain rfl := Option.mem_toList.mp ha
  rw [hf]
  simp

theorem sizeOf_stmtPart {s : Stmt} {x : Node} (h : x ∈ s.parts) :
    sizeOf x < 1 + sizeOf s := by
  cases s with
  | block b =>
    obtain rfl := List.mem_singleton.mp h
    simp
  | expr b span | classGuard type b span =>
    obtain rfl := List.mem_singleton.mp h
    simp
    omega
  | declare x type e span | ret e span =>
    have := sizeOf_optionalPart (fun _ => rfl) h
    simp
    omega
  | ite c t e span =>
    rcases List.mem_cons.mp h with rfl | h
    · simp
      omega
    rcases List.mem_cons.mp h with rfl | h
    · simp
      omega
    have := sizeOf_optionalPart (fun _ => rfl) h
    simp
    omega
  | invoke i =>
    obtain ⟨a, ha, rfl⟩ := List.mem_map.mp h
    have := List.sizeOf_lt_of_mem ha
    obtain ⟨callee, selector, args, span⟩ := i
    simp at *
    omega
  | allocationGuard i b span =>
    rcases List.mem_append.mp h with h | h
    · obtain ⟨a, ha, rfl⟩ := List.mem_map.mp h
      have := List.sizeOf_lt_of_mem ha
      obtain ⟨callee, selector, args, span⟩ := i
      simp at *
      omega
    · obtain rfl := List.mem_singleton.mp h
      simp
      omega

theorem sizeOf_part {n x : Node} (h : x ∈ n.parts) : sizeOf x < sizeOf n := by
  cases n with
  | expr e =>
    obtain ⟨y, hy, rfl⟩ := List.mem_map.mp h
    simpa using sizeOf_exprPart hy
  | stmt s => simpa using sizeOf_stmtPart h
  | block b =>
    obtain ⟨s, hs, rfl⟩ := List.mem_map.mp h
    have := List.sizeOf_lt_of_mem hs
    obtain ⟨statements, span⟩ := b
    simp at *
    omega

theorem sizeOf_argument {receiver : Option Expr} {selector : String} {args : List Expr} {a : Expr}
    {method : Option MethodRef} {s : Span} (h : a ∈ args) :
    sizeOf (expr a) < sizeOf (expr (.call receiver selector args method s)) :=
  sizeOf_part (List.mem_map_of_mem (List.mem_append_right _ h))

theorem induction_on_parts {P : Node → Prop} (h : ∀ n, (∀ x ∈ n.parts, P x) → P n) (n : Node) :
    P n :=
  h n fun x _ => induction_on_parts h x
termination_by sizeOf n
decreasing_by exact sizeOf_part (by assumption)

def exprs : Node → List Expr
  | expr e => e.nodes
  | stmt s => s.nodes
  | block b => b.nodes

theorem inner_eq (e : Expr) : e.inner = e.parts.flatMap Expr.nodes := by
  cases e with
  | call receiver selector args m s =>
    cases receiver <;> simp [Expr.inner, Expr.parts, Expr.nodes, Expr.nodesAll_eq_flatMap]
  | new type selector args enclosing s =>
    cases enclosing <;> simp [Expr.inner, Expr.parts, Expr.nodes, Expr.nodesAll_eq_flatMap]
  | _ => simp [Expr.inner, Expr.parts, Expr.nodes, Expr.nodesAll_eq_flatMap]

theorem flatMap_exprs (es : List Expr) : (es.map expr).flatMap exprs = Expr.nodesAll es := by
  rw [List.flatMap_map, Expr.nodesAll_eq_flatMap]
  rfl

theorem nodes_eq (s : Stmt) : s.nodes = s.parts.flatMap exprs := by
  cases s with
  | declare x type e s => cases e <;> simp [Stmt.nodes, Stmt.parts, exprs, Expr.optionalNodes]
  | ite c t e s => cases e <;> simp [Stmt.nodes, Stmt.parts, exprs]
  | ret e s => cases e <;> simp [Stmt.nodes, Stmt.parts, exprs, Expr.optionalNodes]
  | invoke i => exact (flatMap_exprs i.args).symm
  | allocationGuard i b s =>
    rw [Stmt.nodes, Stmt.parts, List.flatMap_append, flatMap_exprs]
    simp [exprs]
  | _ => simp [Stmt.nodes, Stmt.parts, exprs]

theorem exprs_of_part {n p : Node} (hp : p ∈ n.parts) {e : Expr} (he : e ∈ p.exprs) :
    e ∈ n.exprs := by
  cases n with
  | expr x =>
    obtain ⟨y, hy, rfl⟩ := List.mem_map.mp hp
    refine List.mem_cons_of_mem _ ?_
    rw [inner_eq]
    exact List.mem_flatMap.mpr ⟨y, hy, he⟩
  | stmt s =>
    rw [exprs, nodes_eq]
    exact List.mem_flatMap.mpr ⟨p, hp, he⟩
  | block b =>
    obtain ⟨s, hs, rfl⟩ := List.mem_map.mp hp
    rw [exprs, Block.nodes_eq]
    exact List.mem_flatMap.mpr ⟨s, hs, he⟩

end Node

namespace Rewriter

section Walk

variable (w : Rewriter Id)

def mapNode : Node → Node
  | .expr e => .expr (w.mapExpr e)
  | .stmt s => .stmt (w.mapStmt s)
  | .block b => .block (w.mapBlock b)

def walkNode : Node → Node
  | .expr e => .expr (w.walkExpr e).run
  | .stmt s => .stmt (w.walkStmt s).run
  | .block b => .block (w.walkBlock b).run

theorem mapExprs_eq_map (es : List Expr) : w.mapExprs es = es.map w.mapExpr := by
  induction es with
  | nil => rfl
  | cons e es ih => rw [mapExprs_cons, ih, List.map_cons]

theorem parts_walkExpr (e : Expr) : (w.walkExpr e).run.parts = e.parts.map w.mapExpr := by
  cases e with
  | call receiver selector args method s =>
    cases receiver with
    | none => exact w.mapExprs_eq_map args
    | some r => exact congrArg (w.mapExpr r :: ·) (w.mapExprs_eq_map args)
  | new type selector args enclosing s =>
    cases enclosing with
    | none => exact w.mapExprs_eq_map args
    | some o => exact congrArg (w.mapExpr o :: ·) (w.mapExprs_eq_map args)
  | array type args s | allocate callee selector args s | formatString format args s =>
    exact w.mapExprs_eq_map args
  | _ => rfl

theorem holes_mapExprs (es : List Expr) :
    (w.mapExprs es).map (fun _ => Expr.hole) = es.map fun _ => Expr.hole := by
  rw [mapExprs_eq_map, List.map_map]
  rfl

theorem form_walkExpr (e : Expr) : (w.walkExpr e).run.form = e.form := by
  cases e with
  | call receiver selector args method s =>
    cases receiver with
    | none => exact congrArg (Expr.call none selector · method s) (w.holes_mapExprs args)
    | some r =>
      exact congrArg (Expr.call (some Expr.hole) selector · method s) (w.holes_mapExprs args)
  | new type selector args enclosing s =>
    cases enclosing with
    | none => exact congrArg (Expr.new type selector · none s) (w.holes_mapExprs args)
    | some o =>
      exact congrArg (Expr.new type selector · (some Expr.hole) s) (w.holes_mapExprs args)
  | array type args s => exact congrArg (Expr.array type · s) (w.holes_mapExprs args)
  | allocate callee selector args s =>
    exact congrArg (Expr.allocate callee selector · s) (w.holes_mapExprs args)
  | formatString format args s =>
    exact congrArg (Expr.formatString format · s) (w.holes_mapExprs args)
  | _ => rfl

theorem parts_walkStmt (s : Stmt) : (w.walkStmt s).run.parts = s.parts.map w.mapNode := by
  have hm (es : List Expr) :
      (w.mapExprs es).map Node.expr = (es.map Node.expr).map w.mapNode := by
    rw [mapExprs_eq_map, List.map_map, List.map_map]
    rfl
  cases s with
  | declare x type e s => cases e <;> rfl
  | ite c t e s => cases e <;> rfl
  | ret e s => cases e <;> rfl
  | invoke i => exact hm i.args
  | allocationGuard i b s =>
    rw [Stmt.parts, List.map_append, ← hm]
    rfl
  | _ => rfl

theorem form_walkStmt (s : Stmt) : (w.walkStmt s).run.form = s.form := by
  have hi (i : Invocation) : (w.mapInvocation i).form = i.form :=
    congrArg (Invocation.mk i.callee i.selector · i.span) (w.holes_mapExprs i.args)
  cases s with
  | declare x type e s => cases e <;> rfl
  | ite c t e s => cases e <;> rfl
  | ret e s => cases e <;> rfl
  | invoke i => exact congrArg Stmt.invoke (hi i)
  | allocationGuard i b s => exact congrArg (Stmt.allocationGuard · .hole s) (hi i)
  | _ => rfl

theorem walkBlock_eq (b : Block) :
    (w.walkBlock b).run = { b with statements := b.statements.map w.mapStmt } := by
  obtain ⟨statements, s⟩ := b
  exact congrArg (Block.mk · s) (mapStmts_eq_map statements)

theorem parts_walkNode (n : Node) : (w.walkNode n).parts = n.parts.map w.mapNode := by
  cases n with
  | expr e =>
    rw [walkNode, Node.parts, Node.parts, parts_walkExpr, List.map_map, List.map_map]
    rfl
  | stmt s => exact w.parts_walkStmt s
  | block b =>
    rw [walkNode, Node.parts, Node.parts, walkBlock_eq, List.map_map, List.map_map]
    rfl

theorem form_walkNode (n : Node) : (w.walkNode n).form = n.form := by
  cases n with
  | expr e => exact congrArg Node.expr (w.form_walkExpr e)
  | stmt s => exact congrArg Node.stmt (w.form_walkStmt s)
  | block b =>
    rw [walkNode, Node.form, Node.form, walkBlock_eq, Block.form, Block.form, List.map_map]
    rfl

variable [hw : w.KeepsForm]

theorem mapNode_stmt (s : Stmt) : w.mapNode (.stmt s) = w.walkNode (.stmt s) :=
  congrArg Node.stmt (mapStmt_eq_walk s)

theorem mapNode_block (b : Block) : w.mapNode (.block b) = w.walkNode (.block b) :=
  congrArg (fun m => Node.block (Id.run m)) (hw.block b _)

end Walk

end Rewriter

/-- Two nodes that stand in the same place of two trees: on the way there from the roots, the forms
are the same, but a call may have a receiver in one tree and none in the other. -/
inductive Node.SamePlace (root root' : Node) : Node → Node → Prop
  | root : SamePlace root root' root root'
  | part {n n' x x' : Node} {i : Nat} (h : SamePlace root root' n n') (hf : n.form = n'.form)
      (hx : n.parts[i]? = some x) (hx' : n'.parts[i]? = some x') : SamePlace root root' x x'
  | argument {receiver receiver' : Option Expr} {selector selector' : String}
      {args args' : List Expr} {method method' : Option MethodRef} {s s' : Span} {x x' : Expr}
      {i : Nat} (h : SamePlace root root' (.expr (.call receiver selector args method s))
        (.expr (.call receiver' selector' args' method' s')))
      (hx : args[i]? = some x) (hx' : args'[i]? = some x') :
      SamePlace root root' (.expr x) (.expr x')

inductive Node.Within (root : Node) : Node → Prop
  | root : Within root root
  | part {n x : Node} (h : Within root n) (hx : x ∈ n.parts) : Within root x

namespace Node

theorem Within.trans {n m x : Node} (h : n.Within m) (hx : m.Within x) : n.Within x := by
  induction hx with
  | root => exact h
  | part _ hp ih => exact .part ih hp

theorem Within.of_part {n p x : Node} (hp : p ∈ n.parts) (h : p.Within x) : n.Within x :=
  (Within.part .root hp).trans h

theorem within_iff {n x : Node} : n.Within x ↔ x = n ∨ ∃ p ∈ n.parts, p.Within x := by
  refine ⟨fun h => ?_, ?_⟩
  · induction h with
    | root => exact .inl rfl
    | @part m x _ hx ih =>
      right
      rcases ih with rfl | ⟨p, hp, hm⟩
      · exact ⟨x, hx, .root⟩
      · exact ⟨p, hp, .part hm hx⟩
  · rintro (rfl | ⟨p, hp, h⟩)
    · exact .root
    · exact h.of_part hp

theorem Within.exprs {n x : Node} (h : n.Within x) {e : Expr} (he : e ∈ x.exprs) : e ∈ n.exprs := by
  induction h with
  | root => exact he
  | part _ hp ih => exact ih (exprs_of_part hp he)

theorem SamePlace.within {root root' x x' : Node} (h : SamePlace root root' x x') :
    root.Within x := by
  induction h with
  | root => exact .root
  | part _ _ hx _ ih => exact .part ih (List.mem_of_getElem? hx)
  | argument _ hx _ ih =>
    exact .part ih (List.mem_map.mpr ⟨_, List.mem_append_right _ (List.mem_of_getElem? hx), rfl⟩)

theorem induction_within {P : Node → Prop} (h : ∀ n, (∀ p ∈ n.parts, ∀ x, p.Within x → P x) → P n)
    (n : Node) : P n := by
  have hall : ∀ x, n.Within x → P x := by
    induction n using induction_on_parts with
    | h n ih =>
      intro x hx
      rcases within_iff.mp hx with rfl | ⟨p, hp, hx⟩
      · exact h x ih
      · exact ih p hp x hx
  exact hall n .root

end Node

namespace Rewriter

/-- Where a node is not just rewritten part by part, what takes its place has another form; a call
keeps its arguments. -/
structure KeepsPlaces (w : Rewriter Id) : Prop where
  form (n : Node) : w.mapNode n = w.walkNode n ∨ (w.mapNode n).form ≠ n.form
  args {receiver receiver' : Option Expr} {selector selector' : String} {args args' : List Expr}
    {method method' : Option MethodRef} {s s' : Span}
    (h : w.mapExpr (.call receiver selector args method s) =
      .call receiver' selector' args' method' s') : args' = w.mapExprs args

section Places

variable {w : Rewriter Id}

theorem samePlace_part {root n x : Node}
    (h : Node.SamePlace root (w.mapNode root) n (w.mapNode n)) (hn : w.mapNode n = w.walkNode n)
    (hx : x ∈ n.parts) : Node.SamePlace root (w.mapNode root) x (w.mapNode x) := by
  obtain ⟨i, hi⟩ := List.mem_iff_getElem?.mp hx
  have hi' : (w.mapNode n).parts[i]? = some (w.mapNode x) := by
    rw [hn, parts_walkNode, List.getElem?_map, hi]
    rfl
  exact .part h (by rw [hn, form_walkNode]) hi hi'

theorem KeepsPlaces.eq_mapNode (hw : w.KeepsPlaces) {root x x' : Node}
    (h : Node.SamePlace root (w.mapNode root) x x') : x' = w.mapNode x := by
  induction h with
  | root => rfl
  | @part n n' x x' i _ hf hx hx' ih =>
    subst ih
    rcases hw.form n with hn | hn
    · rw [hn, parts_walkNode, List.getElem?_map, hx] at hx'
      exact (Option.some.inj hx').symm
    -- Where the form changes, nothing below stands in the same place.
    · exact absurd hf.symm hn
  | argument _ hx hx' ih =>
    have ha := hw.args (Node.expr.inj ih).symm
    rw [ha, mapExprs_eq_map, List.getElem?_map, hx] at hx'
    rw [← Option.some.inj hx']
    rfl

/-- A node keeps its place unless it is below one that does and is not just rewritten part by
part. -/
theorem samePlace_of_within {root x : Node} (h : root.Within x) :
    Node.SamePlace root (w.mapNode root) x (w.mapNode x) ∨
      ∃ n, Node.SamePlace root (w.mapNode root) n (w.mapNode n) ∧ w.mapNode n ≠ w.walkNode n ∧
        ∃ p ∈ n.parts, p.Within x := by
  induction h with
  | root => exact .inl .root
  | @part n x h hx ih =>
    rcases ih with hn | ⟨m, hm, hne, p, hp, hpn⟩
    · by_cases he : w.mapNode n = w.walkNode n
      · exact .inl (samePlace_part hn he hx)
      · exact .inr ⟨n, hn, he, x, hx, .root⟩
    · exact .inr ⟨m, hm, hne, p, hp, .part hpn hx⟩

end Places

end Rewriter

end ExplicitInit
