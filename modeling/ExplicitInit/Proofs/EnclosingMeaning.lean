import ExplicitInit.Proofs.EnclosingLinks
import ExplicitInit.Proofs.EnclosingPlaces

namespace ExplicitInit

section Agreement

variable {ν σ : Type} [DecidableEq ν] {w : Semantics ν σ} {c : ClassDecl} {outers : List ν}

/-- What forms and methods do by themselves leaves the links of a class alone. -/
structure Semantics.KeepsLinks (w : Semantics ν σ) (c : ClassDecl) (outers : List ν) : Prop where
  plan (n : Node) : (w.plan n).Keeps (c.IsLinked w.self outers)
  method (message : Message ν) (st : ObjectState ν σ) :
    c.IsLinked w.self outers st → c.IsLinked w.self outers (w.method message st).2

def MeansSame (w : Semantics ν σ) (c : ClassDecl) (outers : List ν) (n n' : Node) : Prop :=
  Run.Agree (c.IsLinked w.self outers) (w.eval (.ofSource c w.self outers) n)
    (w.eval (.explicit w.self) n')

/-- A read through a path to the holder of a member is a read by its name in the source. -/
theorem agree_holder (hc : c.IsOutsideItself) {owner : TypeRef} {path : Expr}
    (hp : c.reach? owner = some path) :
    Run.Agree (c.IsLinked w.self outers)
      (.give ((View.ofSource c w.self outers).holder owner))
      (w.eval (.explicit w.self) (.expr path)) := by
  intro st hst
  rcases ClassDecl.eval_reach? hst owner with ⟨hn, _⟩ | ⟨path', found, hr, hi, he⟩
  · rw [hp] at hn
    cases hn
  · obtain rfl := Option.some.inj (hp.symm.trans hr)
    rw [he, ClassDecl.holder_ofSource hc, hi]
    exact ⟨rfl, hst⟩

theorem agree_self (hc : c.IsOutsideItself) {owner : TypeRef} (hp : c.reach? owner = none) :
    Run.Agree (c.IsLinked (σ := σ) w.self outers)
      (.give ((View.ofSource c w.self outers).holder owner)) (.give w.self) := by
  intro st hst
  rcases ClassDecl.eval_reach? hst owner with ⟨_, hi⟩ | ⟨path, found, hr, _, _⟩
  · rw [ClassDecl.holder_ofSource hc, hi]
    exact ⟨rfl, hst⟩
  · rw [hp] at hr
    cases hr

theorem forall₂_meansSame {ns : List Node} {f : Node → Node}
    (h : ∀ n ∈ ns, MeansSame w c outers n (f n)) :
    List.Forall₂ (Run.Agree (c.IsLinked w.self outers))
      (ns.map (w.eval (.ofSource c w.self outers))) ((ns.map f).map (w.eval (.explicit w.self))) :=
  List.forall₂_map_left_iff.mpr (List.forall₂_map_right_iff.mpr
    (List.forall₂_map_right_iff.mpr (List.forall₂_same.mpr h)))

theorem forall₂_args {args : List Expr}
    (h : ∀ a ∈ args, MeansSame w c outers (.expr a) (.expr ((enclosingRewriter c).mapExpr a))) :
    List.Forall₂ (Run.Agree (c.IsLinked w.self outers))
      (args.map fun a => w.eval (.ofSource c w.self outers) (.expr a))
      (((enclosingRewriter c).mapExprs args).map fun a => w.eval (.explicit w.self) (.expr a)) := by
  rw [Rewriter.mapExprs_eq_map]
  exact List.forall₂_map_left_iff.mpr (List.forall₂_map_right_iff.mpr
    (List.forall₂_map_right_iff.mpr (List.forall₂_same.mpr h)))

variable (hk : w.KeepsLinks c outers) (hc : c.IsOutsideItself)

include hk in
theorem meansSame_plain {n n' : Node} (hn : n.isPlain = true) (hn' : n'.isPlain = true)
    (hw : n' = (enclosingRewriter c).walkNode n)
    (ih : ∀ p ∈ n.parts, MeansSame w c outers p ((enclosingRewriter c).mapNode p)) :
    MeansSame w c outers n n' := by
  unfold MeansSame
  rw [w.eval_plain _ hn, w.eval_plain _ hn', hw, Rewriter.form_walkNode, Rewriter.parts_walkNode]
  exact Run.Agree.plan (forall₂_meansSame ih) (hk.plan _)

include hk hc in
theorem meansSame_name (x : String) (b : Option Binding) (s : Span) :
    MeansSame w c outers (.expr (.name x b s))
      (.expr ((enclosingRewriter c).mapExpr (.name x b s))) := by
  have plain (hb : (Node.expr (.name x b s)).isPlain = true) :
      MeansSame w c outers (.expr (.name x b s)) (.expr (.name x b s)) :=
    meansSame_plain hk hb hb rfl nofun
  cases b with
  | none => exact plain rfl
  | some b =>
    have hm : (enclosingRewriter c).mapExpr (.name x (some b) s) =
        (c.reachName? b).getD (.name x (some b) s) := rfl
    rw [hm]
    cases b with
    | localVar => exact plain rfl
    | type type => exact plain rfl
    | enclosing type =>
      intro st hst
      have he : c.reachName? (.enclosing type) = c.reach? type := rfl
      have hs : (View.ofSource c w.self outers).enclosing? type =
          instanceOf? type c.enclosing outers := rfl
      rw [he, w.eval_enclosing, hs]
      rcases ClassDecl.eval_reach? hst type with ⟨hr, hi⟩ | ⟨path, found, hr, hi, hf⟩
      · rw [hr, hi, Option.getD_none, w.eval_enclosing]
        exact Run.Agree.plan .nil (hk.plan _) st hst
      · rw [hr, hi, Option.getD_some, hf]
        exact ⟨rfl, hst⟩
    | field f =>
      obtain ⟨owner, name, isStatic⟩ := f
      cases isStatic with
      | true => exact plain rfl
      | false =>
        have he : c.reachName? (.field ⟨owner, name, false⟩) =
            (c.reach? owner).map fun path => .access path ⟨owner, name, false⟩ := rfl
        rw [he]
        unfold MeansSame
        rw [Semantics.eval_name]
        cases hr : c.reach? owner with
        | none =>
          rw [Option.map_none, Option.getD_none, Semantics.eval_name]
          exact (agree_self hc hr).readField owner name
        | some path =>
          rw [Option.map_some, Option.getD_some, Expr.access, Semantics.eval_access]
          exact (agree_holder hc hr).readField owner name

include hk hc in
theorem meansSame_call (receiver : Option Expr) (selector : String) (args : List Expr)
    (m : Option MethodRef) (s : Span)
    (ih : ∀ p ∈ (Node.expr (.call receiver selector args m s)).parts,
      MeansSame w c outers p ((enclosingRewriter c).mapNode p)) :
    MeansSame w c outers (.expr (.call receiver selector args m s))
      (.expr ((enclosingRewriter c).mapExpr (.call receiver selector args m s))) := by
  have ha (a : Expr) (h : a ∈ args) :
      MeansSame w c outers (.expr a) (.expr ((enclosingRewriter c).mapExpr a)) :=
    ih (.expr a) (List.mem_map.mpr ⟨a, List.mem_append_right _ h, rfl⟩)
  have send {r r' : Run ν σ} (hr : Run.Agree (c.IsLinked w.self outers) r r') :
      Run.Agree (c.IsLinked w.self outers)
        (.send w.method r selector (args.map fun a => w.eval (.ofSource c w.self outers) (.expr a)))
        (.send w.method r' selector (((enclosingRewriter c).mapExprs args).map fun a =>
          w.eval (.explicit w.self) (.expr a))) :=
    hr.send (forall₂_args ha) hk.method fun _ _ h => h
  unfold MeansSame
  cases receiver with
  | some r =>
    have hr := ih (.expr r) (List.mem_map.mpr ⟨r, List.mem_cons_self, rfl⟩)
    have hm : (enclosingRewriter c).mapExpr (.call (some r) selector args m s) =
        .call (some ((enclosingRewriter c).mapExpr r)) selector
          ((enclosingRewriter c).mapExprs args) m s := rfl
    rw [hm, w.eval_call, w.eval_call]
    exact send hr
  | none =>
    cases m with
    | none => exact meansSame_plain hk rfl rfl rfl ih
    | some m =>
      obtain ⟨owner, isStatic⟩ := m
      cases isStatic with
      | true => exact meansSame_plain hk rfl rfl rfl ih
      | false =>
        rw [w.eval_implicitCall]
        rw [mapExpr_implicitCall, ClassDecl.reachReceiver?_eq hc.encloses]
        cases hr : c.reach? owner with
        | none =>
          rw [w.eval_implicitCall]
          exact send (agree_self hc hr)
        | some path =>
          rw [w.eval_call]
          exact send (agree_holder hc hr)

theorem isLinked_withField {target r : Expr} {t : Span} {owner : TypeRef} {name : String}
    (hn : c.assignsLink (.assign target r t) = false)
    (ht : (∃ x s, target = .name x (some (.field ⟨owner, name, false⟩)) s) ∨
      ∃ o s, target = .fieldAccess o ⟨owner, name, false⟩ s)
    (st : ObjectState ν σ) (object new : ν) (h : c.IsLinked w.self outers st) :
    c.IsLinked w.self outers (st.withField object owner name new) := by
  have hl : (linkFields c.type c.enclosing).any
      (fun g => g.owner.same owner && g.name == name) = false := by
    rcases ht with ⟨x, s, rfl⟩ | ⟨o, s, rfl⟩
    · exact hn
    · exact hn
  refine Links.withField h fun g hg hx => ?_
  have := List.any_eq_false.mp hl g hg
  simp [hx.1, hx.2] at this

include hk in
theorem meansSame_assignOther (x : String) (b : Option Binding) (s : Span) {r r' : Expr} (t : Span)
    (hb : ∀ owner f, b ≠ some (.field ⟨owner, f, false⟩))
    (hr : MeansSame w c outers (.expr r) (.expr r')) :
    MeansSame w c outers (.expr (.assign (.name x b s) r t))
      (.expr (.assign (.name x b s) r' t)) := by
  unfold MeansSame
  rw [w.eval_assignOtherName _ x b s r t hb, w.eval_assignOtherName _ x b s r' t hb]
  exact Run.Agree.plan (.cons hr .nil) (hk.plan _)

include hk hc in
theorem meansSame_assignName (x : String) (b : Option Binding) (s : Span) {r r' : Expr} (t : Span)
    (hn : c.assignsLink (.assign (.name x b s) r t) = false)
    (hr : MeansSame w c outers (.expr r) (.expr r')) :
    MeansSame w c outers (.expr (.assign (.name x b s) r t))
      (.expr (.assign ((enclosingRewriter c).mapExpr (.name x b s)) r' t)) := by
  cases b with
  | none => exact meansSame_assignOther hk x none s t nofun hr
  | some b =>
    have hm : (enclosingRewriter c).mapExpr (.name x (some b) s) =
        (c.reachName? b).getD (.name x (some b) s) := rfl
    rw [hm]
    cases b with
    | localVar | type => exact meansSame_assignOther hk x _ s t nofun hr
    | enclosing type =>
      have hl : ∀ link ∈ c.enclosing, link.type.id ≠ type.id := by
        intro link hl he
        have := List.any_eq_false.mp hn link hl
        exact this (TypeRef.same_iff.mpr he)
      have he : c.reachName? (.enclosing type) = c.reach? type := rfl
      rw [he, ClassDecl.reach?_eq_none_iff.mpr (ClassDecl.encloses_eq_false_iff.mpr hl)]
      exact meansSame_assignOther hk x _ s t nofun hr
    | field f =>
      obtain ⟨owner, name, isStatic⟩ := f
      cases isStatic with
      | true => exact meansSame_assignOther hk x _ s t nofun hr
      | false =>
        have he : c.reachName? (.field ⟨owner, name, false⟩) =
            (c.reach? owner).map fun path => .access path ⟨owner, name, false⟩ := rfl
        have hf : ∀ (st : ObjectState ν σ) (object new : ν), c.IsLinked w.self outers st →
            c.IsLinked w.self outers (st.withField object owner name new) :=
          isLinked_withField hn (.inl ⟨x, s, rfl⟩)
        unfold MeansSame
        rw [he, w.eval_assignName]
        cases hp : c.reach? owner with
        | none =>
          rw [Option.map_none, Option.getD_none, w.eval_assignName]
          exact (agree_self hc hp).writeField hr hf
        | some path =>
          rw [Option.map_some, Option.getD_some, Expr.access, w.eval_assignAccess]
          exact (agree_holder hc hp).writeField hr hf

include hk in
theorem meansSame_assignAccess {o o' : Expr} (f : FieldRef) (s : Span) {r r' : Expr} (t : Span)
    (hn : c.assignsLink (.assign (.fieldAccess o f s) r t) = false)
    (ho : MeansSame w c outers (.expr o) (.expr o'))
    (hr : MeansSame w c outers (.expr r) (.expr r')) :
    MeansSame w c outers (.expr (.assign (.fieldAccess o f s) r t))
      (.expr (.assign (.fieldAccess o' f s) r' t)) := by
  obtain ⟨owner, name, isStatic⟩ := f
  unfold MeansSame
  cases isStatic with
  | true =>
    rw [w.eval_assignOtherAccess, w.eval_assignOtherAccess]
    exact Run.Agree.plan (.cons ho (.cons hr .nil)) (hk.plan _)
  | false =>
    rw [w.eval_assignAccess, w.eval_assignAccess]
    exact ho.writeField hr (isLinked_withField hn (.inr ⟨o, s, rfl⟩))

include hk hc in
theorem meansSame_of_parts (n : Node) (hn : ∀ e ∈ n.exprs, c.assignsLink e = false)
    (ih : ∀ p ∈ n.parts, ∀ x, p.Within x →
      MeansSame w c outers x ((enclosingRewriter c).mapNode x)) :
    MeansSame w c outers n ((enclosingRewriter c).mapNode n) := by
  have hp : ∀ p ∈ n.parts, MeansSame w c outers p ((enclosingRewriter c).mapNode p) :=
    fun p h => ih p h p .root
  cases n with
  | stmt s => exact meansSame_plain hk rfl rfl ((enclosingRewriter c).mapNode_stmt s) hp
  | block b => exact meansSame_plain hk rfl rfl ((enclosingRewriter c).mapNode_block b) hp
  | expr e =>
    cases e with
    | name x b s => exact meansSame_name hk hc x b s
    | call receiver selector args m s => exact meansSame_call hk hc receiver selector args m s hp
    | fieldAccess r f s =>
      obtain ⟨owner, name, isStatic⟩ := f
      cases isStatic with
      | true => exact meansSame_plain hk rfl rfl rfl hp
      | false =>
        have hr := hp (.expr r) List.mem_cons_self
        change MeansSame w c outers _
          (.expr (.fieldAccess ((enclosingRewriter c).mapExpr r) ⟨owner, name, false⟩ s))
        unfold MeansSame
        rw [w.eval_access, w.eval_access]
        exact hr.readField owner name
    | assign target r t =>
      have hr := hp (.expr r) (List.mem_cons_of_mem _ List.mem_cons_self)
      have hassign := hn (.assign target r t) List.mem_cons_self
      cases target with
      | name x b s => exact meansSame_assignName hk hc x b s t hassign hr
      -- The access is written, not read; what counts is the object that it is made on.
      | fieldAccess o f s =>
        have ho := ih (.expr (.fieldAccess o f s)) List.mem_cons_self (.expr o)
          (.part .root List.mem_cons_self)
        exact meansSame_assignAccess hk f s t hassign ho hr
      | call receiver selector args m s =>
        obtain ⟨receiver', hm⟩ := mapExpr_call c receiver selector args m s
        refine meansSame_plain hk rfl ?_ rfl hp
        change (Node.expr (.assign ((enclosingRewriter c).mapExpr _) _ t)).isPlain = true
        rw [hm]
        rfl
      | new type selector args enclosing s =>
        cases enclosing <;> exact meansSame_plain hk rfl rfl rfl hp
      | _ => exact meansSame_plain hk rfl rfl rfl hp
    | new type selector args enclosing s =>
      cases enclosing <;> exact meansSame_plain hk rfl rfl rfl hp
    | _ => exact meansSame_plain hk rfl rfl rfl hp

include hk hc in
theorem meansSame_mapNode (n : Node) (hn : ∀ e ∈ n.exprs, c.assignsLink e = false) :
    MeansSame w c outers n ((enclosingRewriter c).mapNode n) := by
  -- On the left of an assignment the parts of a part count, so parts are not enough to go by.
  induction n using Node.induction_within with
  | h n ih =>
    refine meansSame_of_parts hk hc n hn fun p hp x hx => ih p hp x hx fun e he => ?_
    exact hn e (Node.exprs_of_part hp (hx.exprs he))

end Agreement

/-- How a statement with its reads made explicit relates to the one in the source: in each state in
which the links hold the enclosing instances, what stands in the place of a node gives the same
value, sends the same messages and leaves the same state as the node. -/
structure Stmt.KeepsMeaning {ν σ : Type} [DecidableEq ν] (w : Semantics ν σ) (c : ClassDecl)
    (outers : List ν) (s s' : Stmt) : Prop where
  meaning {x x' : Node} (h : Node.SamePlace (.stmt s) (.stmt s') x x') (st : ObjectState ν σ)
    (hst : c.IsLinked w.self outers st) :
    w.eval (.explicit w.self) x' st = w.eval (.ofSource c w.self outers) x st
  place {x : Node} (h : (Node.stmt s).Within x) : ∃ x', Node.SamePlace (.stmt s) (.stmt s') x x'

/-- Making reads of enclosing instances explicit keeps what statements mean, as long as they leave
the links alone. -/
theorem withEnclosingReads_keeps_meaning {ν σ : Type} [DecidableEq ν] {w : Semantics ν σ}
    {c : ClassDecl} {outers : List ν} (hk : w.KeepsLinks c outers) (hc : c.IsOutsideItself)
    {statements : List Stmt} (hn : ∀ e ∈ Stmt.nodesAll statements, c.assignsLink e = false)
    {i : Nat} {s : Stmt} (hs : statements[i]? = some s) :
    ∃ s', (c.withEnclosingReads statements)[i]? = some s' ∧ s.KeepsMeaning w c outers s' := by
  refine ⟨(enclosingRewriter c).mapStmt s, ?_, ?_, fun hx => ⟨_, samePlace_enclosing hx⟩⟩
  · change ((enclosingRewriter c).mapStmts statements)[i]? = _
    rw [Rewriter.mapStmts_eq_map, List.getElem?_map, hs]
    rfl
  · intro x x' h st hst
    obtain rfl : x' = (enclosingRewriter c).mapNode x :=
      (enclosingRewriter_keepsPlaces c).eq_mapNode h
    refine (meansSame_mapNode hk hc x (fun e he => hn e ?_) st hst).1
    rw [Stmt.nodesAll_eq_flatMap]
    exact List.mem_flatMap.mpr ⟨s, List.mem_of_getElem? hs, h.within.exprs he⟩

section Cell

def cell : ClassDecl :=
  ((ClassDecl.ofType ⟨⟨3⟩, "Cell"⟩).nestedIn (.to ⟨⟨2⟩, "Row"⟩)).nestedIn
    ⟨⟨⟨1⟩, "Table"⟩, "this$1", "outer$"⟩

def cellSizing : Stmt :=
  .ofExpr (.assignment (.fieldName (.ofInstance cell.type "width"))
    (.sendImplicit ⟨⟨⟨2⟩, "Row"⟩, false⟩ "scaled"
      [.fieldName (.ofInstance ⟨⟨1⟩, "Table"⟩ "width")]))

def cellSemantics : Semantics Nat Unit where
  self := 30
  plan _ := .part 0 fun value => .give (value.getD 0)
  method message := .give message.receiver

theorem withEnclosingReads_keeps_meaning_cell :
    cell.IsLinked (σ := Unit) 30 [20, 10] ⟨fun o _ _ => if o = 30 then 20 else 10, [], ()⟩ ∧
      ∃ s', (cell.withEnclosingReads [cellSizing])[0]? = some s' ∧
        cellSizing.KeepsMeaning cellSemantics cell [20, 10] s' := by
  refine ⟨⟨rfl, rfl, trivial⟩, withEnclosingReads_keeps_meaning ⟨?_, ?_⟩ ?_ ?_ rfl⟩
  · exact fun _ _ => trivial
  · exact fun _ _ h => h
  · intro link hl
    refine ⟨?_, nofun⟩
    revert link
    decide
  · decide

end Cell

end ExplicitInit
