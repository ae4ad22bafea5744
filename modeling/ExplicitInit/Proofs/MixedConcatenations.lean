import ExplicitInit.Proofs.StringMeaning

namespace ExplicitInit

namespace Expr

def isString : Expr → Bool
  | string .. => true
  | _ => false

def isJoin : Expr → Bool
  | binary .concat _ _ _ => true
  | _ => false

/-- What an expression joins, from left to right, however it is grouped. -/
def leaves : Expr → List Expr
  | binary .concat left right _ => left.leaves ++ right.leaves
  | e => [e]

/-- The concatenations between an expression and its leaves, the expression included. -/
def joins : Expr → List Expr
  | e@(binary .concat left right _) => e :: (left.joins ++ right.joins)
  | _ => []

/-- The same concatenations join the same literals, with those respelled by themselves that have to
be, and what becomes of each other leaf alone. -/
inductive KeepsShape : Expr → Expr → Prop
  | join {left left' right right' : Expr} {s : Span} (hl : KeepsShape left left')
      (hr : KeepsShape right right') :
      KeepsShape (binary .concat left right s) (binary .concat left' right' s)
  | numbered {units : List UInt16} {s : Span} (h : allInline units = false) :
      KeepsShape (string units s) (unitString units s)
  | inline {units : List UInt16} {s : Span} (h : allInline units = true) :
      KeepsShape (string units s) (string units s)
  | other {e e' : Expr} (hj : e.isJoin = false) (hs : e.isString = false) (hf : e'.form = e.form)
      (he : Gives (literalRewriter.rewriteExpr e) e') : KeepsShape e e'

theorem literals?_of_not_join {e : Expr} (h : e.isJoin = false) (hs : e.isString = false) :
    e.literals? = none := by
  unfold literals?
  split
  · cases hs
  · cases h
  · rfl

theorem leaves_of_literals? {e : Expr} {ls : List StringLiteral} (h : e.literals? = some ls) :
    e.leaves = ls.map fun l => string l.units l.span := by
  fun_induction literals? e generalizing ls with
  | case1 units span =>
    cases Option.some.inj h
    rfl
  | case2 left right span as hl bs hr ihl ihr =>
    cases Option.some.inj h
    rw [leaves, ihl hl, ihr hr, List.map_append]
  | case3 => simp at h
  | case4 => simp at h
  | case5 => simp at h

theorem exists_literals? {e : Expr} (h : ∀ x ∈ e.leaves, x.isString = true) :
    ∃ ls, e.literals? = some ls := by
  fun_induction leaves e with
  | case1 left right span ihl ihr =>
    obtain ⟨hl, hr⟩ := List.forall_mem_append.mp h
    obtain ⟨as, ha⟩ := ihl hl
    obtain ⟨bs, hb⟩ := ihr hr
    exact ⟨as ++ bs, by simp [literals?, ha, hb]⟩
  | case2 e =>
    have hs := h e (List.mem_singleton_self e)
    cases e with
    | string units span => exact ⟨_, rfl⟩
    | _ => cases hs

theorem literals?_eq_none_iff {e : Expr} :
    e.literals? = none ↔ ∃ x ∈ e.leaves, x.isString = false := by
  constructor
  · intro h
    by_contra hn
    have hall : ∀ x ∈ e.leaves, x.isString = true := by
      intro x hx
      by_contra hs
      exact hn ⟨x, hx, Bool.eq_false_iff.mpr hs⟩
    obtain ⟨ls, hl⟩ := exists_literals? hall
    cases h.symm.trans hl
  · rintro ⟨x, hx, hs⟩
    cases hl : e.literals? with
    | none => rfl
    | some ls =>
      rw [leaves_of_literals? hl] at hx
      obtain ⟨l, _, rfl⟩ := List.mem_map.mp hx
      cases hs

theorem mixture?_eq_none_iff {e : Expr} :
    e.mixture? = none ↔
      ((∀ x ∈ e.leaves, x.isString = true) → ∀ x ∈ e.leaves, x.isSettled = true) := by
  unfold mixture?
  cases hl : e.literals? with
  | none =>
    obtain ⟨x, hx, hs⟩ := literals?_eq_none_iff.mp hl
    refine iff_of_true rfl fun hall => ?_
    rw [hall x hx] at hs
    cases hs
  | some ls =>
    rw [leaves_of_literals? hl]
    simp [Option.filter_eq_none_iff, isString, isSettled, StringLiteral.isInline]

theorem mapExpr_concat {left right : Expr} {s : Span}
    (h : (binary .concat left right s).mixture? = none) :
    respeller.mapExpr (binary .concat left right s) =
      binary .concat (respeller.mapExpr left) (respeller.mapExpr right) s := by
  simp only [Rewriter.mapExpr, Rewriter.rewriteExpr, respeller, h]
  rfl

theorem mapExpr_of_mixture? {left right : Expr} {s : Span} {ls : List StringLiteral}
    (h : (binary .concat left right s).mixture? = some ls) :
    respeller.mapExpr (binary .concat left right s) = formatOf ls s := by
  simp only [Rewriter.mapExpr, Rewriter.rewriteExpr, respeller, h]
  rfl

theorem keepsShape_string (units : List UInt16) (s : Span) :
    (string units s).KeepsShape (respeller.mapExpr (string units s)) := by
  by_cases hu : allInline units = true
  · have hm : respeller.mapExpr (string units s) = string units s := by
      simp only [Rewriter.mapExpr, Rewriter.rewriteExpr, respeller, hu]
      rfl
    rw [hm]
    exact .inline hu
  · have hm : respeller.mapExpr (string units s) = unitString units s := by
      simp only [Rewriter.mapExpr, Rewriter.rewriteExpr, respeller, hu]
      rfl
    rw [hm]
    exact .numbered (eq_false_of_ne_true hu)

theorem keepsShape_leaf {e : Expr} (h : e.isJoin = false) : e.KeepsShape (respeller.mapExpr e) := by
  cases hs : e.isString with
  | true =>
    cases e with
    | string units span => exact keepsShape_string units span
    | _ => cases hs
  | false =>
    rcases mapExpr_respeller e with ⟨_, hw⟩ | ⟨units, span, rfl, _⟩ | ⟨ls, hl, _⟩
    · exact .other h hs (hw ▸ respeller.form_walkExpr e) (rewriteExpr_gives e)
    · cases hs
    · rw [literals?_of_not_join h hs] at hl
      cases hl

/-- Respelling keeps the shape of an expression unless one of its concatenations becomes a
format. -/
theorem keepsShape_mapExpr_iff (e : Expr) :
    e.KeepsShape (respeller.mapExpr e) ↔ ∀ x ∈ e.joins, x.mixture? = none := by
  fun_induction joins e with
  | case1 left right span ihl ihr =>
    rw [List.forall_mem_cons, List.forall_mem_append, ← ihl, ← ihr]
    cases hm : (binary .concat left right span).mixture? with
    | none =>
      rw [mapExpr_concat hm]
      constructor
      · intro h
        cases h with
        | join hl hr => exact ⟨rfl, hl, hr⟩
        | other hj => cases hj
      · rintro ⟨_, hl, hr⟩
        exact .join hl hr
    | some ls =>
      rw [mapExpr_of_mixture? hm]
      refine iff_of_false (fun h => ?_) fun h => by simp at h
      cases h with
      | other hj => cases hj
  | case2 e he =>
    have hj : e.isJoin = false := by
      unfold isJoin
      split
      · exact absurd rfl (he _ _ _)
      · rfl
    exact iff_of_true (keepsShape_leaf hj) fun _ h => nomatch h

theorem exists_literals?_of_part {e p : Expr} {ls : List StringLiteral}
    (h : e.literals? = some ls) (hp : p ∈ e.parts) : ∃ ls', p.literals? = some ls' := by
  unfold literals? at h
  split at h
  · cases hp
  · split at h
    · rename_i hl
      split at h
      · rename_i hr
        rcases List.mem_cons.mp hp with rfl | hp
        · exact ⟨_, hl⟩
        · exact ⟨_, List.mem_singleton.mp hp ▸ hr⟩
      · cases h
    · cases h
  · cases h

theorem exists_literals?_of_within {e : Expr} {n : Node} {ls : List StringLiteral}
    (h : e.literals? = some ls) (hn : (Node.expr e).Within n) :
    ∃ x ls', n = .expr x ∧ x.literals? = some ls' := by
  induction hn with
  | root => exact ⟨e, ls, rfl, h⟩
  | part _ hp ih =>
    obtain ⟨x, _, rfl, hx⟩ := ih
    obtain ⟨p, hpart, rfl⟩ := List.mem_map.mp hp
    obtain ⟨ls', hl⟩ := exists_literals?_of_part hx hpart
    exact ⟨p, ls', rfl, hl⟩

theorem samePlace_of_mixed {b : Block} {e : Expr} (he : (Node.block b).Within (.expr e))
    (hmixed : ∃ x ∈ e.leaves, x.isString = false) :
    Node.SamePlace (.block b) (.block (respeller.mapBlock b)) (.expr e)
      (.expr (respeller.mapExpr e)) := by
  rcases samePlace_respeller he with h | ⟨y, ls, _, hl, p, hp, hpx⟩
  · exact h
  · obtain ⟨x, ls', hx, hl'⟩ := exists_literals?_of_within hl (hpx.of_part (List.mem_map_of_mem hp))
    obtain rfl := Node.expr.inj hx
    cases hl'.symm.trans (literals?_eq_none_iff.mpr hmixed)

end Expr

namespace ClassDecl

theorem running?_respelled {c : ClassDecl} {i : Nat} {m : Member} {b : Block}
    (hm : c.members[i]? = some m) (hb : m.running? = some b) :
    c.respelled.1.members[i]? = some (m.adjusted respeller) ∧
      (m.adjusted respeller).running? = some (respeller.mapBlock b) := by
  rw [members_respelled, List.getElem?_map, hm, Member.running?_adjusted, hb]
  exact ⟨rfl, rfl⟩

/-- Where strings are joined to something else in the bodies that run, the concatenation keeps its
shape exactly if none of the concatenations in it joins nothing but literals, with one among them
that has to be respelled. -/
theorem respelled_keepsShape_iff (c : ClassDecl) {i : Nat} {m : Member} {b : Block} {e : Expr}
    (hm : c.members[i]? = some m) (hb : m.running? = some b)
    (he : (Node.block b).Within (.expr e)) (hmixed : ∃ x ∈ e.leaves, x.isString = false) :
    ∃ m' b', c.respelled.1.members[i]? = some m' ∧ m'.running? = some b' ∧
      (∃ e', Node.SamePlace (.block b) (.block b') (.expr e) (.expr e')) ∧
      ∀ e', Node.SamePlace (.block b) (.block b') (.expr e) (.expr e') →
        (e.KeepsShape e' ↔ ∀ x ∈ e.joins, (∀ y ∈ x.leaves, y.isString = true) →
          ∀ y ∈ x.leaves, y.isSettled = true) := by
  obtain ⟨hm', hb'⟩ := running?_respelled hm hb
  refine ⟨_, _, hm', hb', ⟨_, Expr.samePlace_of_mixed he hmixed⟩, fun e' hplace => ?_⟩
  obtain rfl := Node.expr.inj (respeller_keepsPlaces.eq_mapNode hplace)
  simp only [Expr.keepsShape_mapExpr_iff, Expr.mixture?_eq_none_iff]

def banner (text : Expr) : ClassDecl :=
  (ofType ⟨⟨1⟩, "Banner"⟩).push (.constructor (.ofBody "init" [] [.ofExpr text]))

theorem running?_banner (text : Expr) :
    (banner text).members[0]? = some (.constructor (.ofBody "init" [] [.ofExpr text])) ∧
      (Member.constructor (.ofBody "init" [] [.ofExpr text])).running? =
        some (.ofList [.ofExpr text]) :=
  ⟨rfl, rfl⟩

theorem within_banner (text : Expr) :
    (Node.block (.ofList [.ofExpr text])).Within (.expr text) :=
  .part (.part .root (List.mem_singleton_self _)) (List.mem_singleton_self _)

def nameOnTheRight : Expr :=
  .concat (.ofText "hi") (.concat (.string [0xFFFF] .synthetic) (.localVar "name"))

theorem respelled_keepsShape_iff_nameOnTheRight :
    ∃ m' b' e', (banner nameOnTheRight).respelled.1.members[0]? = some m' ∧
      m'.running? = some b' ∧
      Node.SamePlace (.block (.ofList [.ofExpr nameOnTheRight])) (.block b')
        (.expr nameOnTheRight) (.expr e') ∧ nameOnTheRight.KeepsShape e' := by
  have hmixed : ∃ x ∈ nameOnTheRight.leaves, x.isString = false := by decide +kernel
  have hjoins : ∀ x ∈ nameOnTheRight.joins, (∀ y ∈ x.leaves, y.isString = true) →
      ∀ y ∈ x.leaves, y.isSettled = true := by decide +kernel
  obtain ⟨m', b', hm, hb, ⟨e', hplace⟩, hshape⟩ :=
    respelled_keepsShape_iff (banner nameOnTheRight) (running?_banner _).1 (running?_banner _).2
      (within_banner _) hmixed
  exact ⟨m', b', e', hm, hb, hplace, (hshape e' hplace).mpr hjoins⟩

def textsOnTheLeft : Expr :=
  .concat (.concat (.ofText "hi") (.string [0xFFFF] .synthetic)) (.localVar "name")

/-- The texts become a format, though they are joined to a name. -/
theorem not_keepsShape_textsOnTheLeft :
    (∃ x ∈ textsOnTheLeft.leaves, x.isString = false) ∧
      ∃ m' b' e', (banner textsOnTheLeft).respelled.1.members[0]? = some m' ∧
        m'.running? = some b' ∧
        Node.SamePlace (.block (.ofList [.ofExpr textsOnTheLeft])) (.block b')
          (.expr textsOnTheLeft) (.expr e') ∧ ¬textsOnTheLeft.KeepsShape e' := by
  have hmixed : ∃ x ∈ textsOnTheLeft.leaves, x.isString = false := by decide +kernel
  obtain ⟨hm, hb⟩ := running?_respelled (running?_banner textsOnTheLeft).1 (running?_banner _).2
  refine ⟨hmixed, _, _, _, hm, hb, Expr.samePlace_of_mixed (within_banner _) hmixed, ?_⟩
  rw [Expr.keepsShape_mapExpr_iff]
  intro h
  have hkept : (Expr.concat (.ofText "hi") (.string [0xFFFF] .synthetic)).mixture? = none :=
    h _ (List.mem_cons_of_mem _ List.mem_cons_self)
  cases hkept

end ClassDecl

end ExplicitInit
