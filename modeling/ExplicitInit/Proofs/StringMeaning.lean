import ExplicitInit.Proofs.Idempotence
import ExplicitInit.Proofs.Lists

namespace ExplicitInit

/-- A meaning of trees: that of a node depends on its form and on what its parts mean. -/
structure Meaning (D : Type) where
  compose : Node → List D → D

namespace Meaning

variable {D : Type} (M : Meaning D)

def denote (n : Node) : D :=
  M.compose n.form (n.parts.attach.map fun x => denote x.1)
termination_by sizeOf n
decreasing_by exact Node.sizeOf_part x.2

theorem denote_eq (n : Node) : M.denote n = M.compose n.form (n.parts.map M.denote) := by
  rw [denote, List.map_attach_eq_pmap, List.pmap_eq_map]

theorem denote_congr {n n' : Node} (hf : n.form = n'.form)
    (hp : n.parts.map M.denote = n'.parts.map M.denote) : M.denote n = M.denote n' := by
  rw [M.denote_eq n, M.denote_eq n', hf, hp]

end Meaning

/-- Reads a format from left to right: each `%%` is one percent sign and each `%@` the next of the
arguments, which must be as many. -/
def readFormat : List Char → List (List UInt16) → Option (List UInt16)
  | [], [] => some []
  | [], _ :: _ => none
  | '%' :: '%' :: cs, us => (readFormat cs us).map (Utf16.encodeChar '%' ++ ·)
  | '%' :: '@' :: cs, u :: us => (readFormat cs us).map (u ++ ·)
  | '%' :: _, _ => none
  | c :: cs, us => (readFormat cs us).map (Utf16.encodeChar c ++ ·)

/-- The forms of strings mean what they say; `str` is the meaning of a string by its code units. -/
structure Meaning.ReadsStrings {D : Type} (M : Meaning D) (str : List UInt16 → D) : Prop where
  literal (units : List UInt16) (s : Span) : M.denote (.expr (.string units s)) = str units
  numbered (units : List UInt16) (s : Span) : M.denote (.expr (.unitString units s)) = str units
  joined {left right : Expr} {us vs : List UInt16} (s : Span)
    (hl : M.denote (.expr left) = str us) (hr : M.denote (.expr right) = str vs) :
    M.denote (.expr (.binary .concat left right s)) = str (us ++ vs)
  format {text : String} {args : List Expr} {parts : List (List UInt16)} {units : List UInt16}
    (s : Span) (ha : args.map (fun a => M.denote (.expr a)) = parts.map str)
    (hr : readFormat text.toList parts = some units) :
    M.denote (.expr (.formatString text args s)) = str units

namespace Utf16

theorem isSurrogate_of_isInline {u : UInt16} (h : isInline u = true) : isSurrogate u = false := by
  simp only [isInline, isSurrogate, Bool.or_eq_true, Bool.and_eq_true, beq_iff_eq,
    decide_eq_true_eq, Bool.and_eq_false_iff, decide_eq_false_iff_not, UInt16.le_iff_toNat_le,
    ← UInt16.toNat_inj] at *
  simp at *
  omega

theorem isHighSurrogate_eq_false {u : UInt16} (h : isSurrogate u = false) :
    isHighSurrogate u = false := by
  simp only [isSurrogate, isHighSurrogate, Bool.and_eq_false_iff, decide_eq_false_iff_not,
    UInt16.le_iff_toNat_le] at *
  simp at *
  omega

theorem pieces_eq_map {us : List UInt16} (h : ∀ u ∈ us, isSurrogate u = false) :
    pieces us = us.map fun u => .char (Char.ofNat u.toNat) := by
  fun_induction pieces us with
  | case1 => rfl
  | case2 u hu => simp [h u List.mem_cons_self] at hu
  | case3 u hu => rfl
  | case4 u v rest hp ih => simp [isHighSurrogate_eq_false (h u List.mem_cons_self)] at hp
  | case5 u v rest hp hu ih => simp [h u List.mem_cons_self] at hu
  | case6 u v rest hp hu ih => exact congrArg (_ :: ·) (ih (List.forall_mem_cons.mp h).2)

theorem toNat_ofNat {u : UInt16} (h : isSurrogate u = false) :
    (Char.ofNat u.toNat).toNat = u.toNat := by
  have hu : u.toNat < 65536 := u.toNat_lt
  have hv : u.toNat.isValidChar := by
    simp only [isSurrogate, Bool.and_eq_false_iff, decide_eq_false_iff_not,
      UInt16.le_iff_toNat_le] at h
    simp at h
    unfold Nat.isValidChar
    omega
  rw [Char.ofNat, dif_pos hv]
  rfl

theorem encodeChar_ofNat {u : UInt16} (h : isSurrogate u = false) :
    encodeChar (Char.ofNat u.toNat) = [u] := by
  rw [encodeChar, toNat_ofNat h, if_pos u.toNat_lt, UInt16.ofNat_toNat]

theorem encode_lossy {us : List UInt16} (h : ∀ u ∈ us, isSurrogate u = false) :
    encode (lossy us) = us := by
  rw [encode, lossy, pieces_eq_map h, String.toList_ofList, List.map_map, List.flatMap_map]
  induction us with
  | nil => rfl
  | cons u us ih =>
    obtain ⟨hu, hus⟩ := List.forall_mem_cons.mp h
    rw [List.flatMap_cons, ih hus]
    exact congrArg (· ++ us) (encodeChar_ofNat hu)

end Utf16

section Formats

theorem readFormat_text (cs rest : List Char) (us : List (List UInt16)) :
    readFormat (cs.flatMap StringLiteral.formatChar ++ rest) us =
      (readFormat rest us).map (cs.flatMap Utf16.encodeChar ++ ·) := by
  induction cs with
  | nil => simp
  | cons c cs ih =>
    rw [List.flatMap_cons, List.append_assoc, List.flatMap_cons]
    -- Only after a percent sign does the reader look at the next character.
    by_cases hc : c = '%'
    · subst hc
      change readFormat ('%' :: '%' :: (cs.flatMap StringLiteral.formatChar ++ rest)) us = _
      rw [readFormat, ih, Option.map_map]
      simp [Function.comp_def]
    · have hf : StringLiteral.formatChar c = [c] := if_neg hc
      rw [hf, List.singleton_append, readFormat, ih, Option.map_map]
      · simp [Function.comp_def]
      all_goals simp [hc]

theorem encode_lossy_of_isInline {l : StringLiteral} (h : l.isInline = true) :
    (Utf16.lossy l.units).toList.flatMap Utf16.encodeChar = l.units :=
  Utf16.encode_lossy fun u hu => Utf16.isSurrogate_of_isInline (List.all_eq_true.mp h u hu)

theorem readFormat_literals (ls : List StringLiteral) :
    readFormat (ls.flatMap StringLiteral.formatPart)
      ((ls.filter (!·.isInline)).map StringLiteral.units) =
        some (ls.flatMap StringLiteral.units) := by
  induction ls with
  | nil => rfl
  | cons l ls ih =>
    rw [List.flatMap_cons, List.flatMap_cons]
    cases hl : l.isInline with
    | true =>
      have hp : l.formatPart = (Utf16.lossy l.units).toList.flatMap StringLiteral.formatChar :=
        if_pos hl
      rw [List.filter_cons_of_neg (by simp [hl]), hp, readFormat_text, ih, Option.map_some,
        encode_lossy_of_isInline hl]
    | false =>
      have hp : l.formatPart = ['%', '@'] := by simp [StringLiteral.formatPart, hl]
      rw [List.filter_cons_of_pos (by simp [hl]), hp, List.map_cons]
      change readFormat ('%' :: '@' :: ls.flatMap StringLiteral.formatPart) _ = _
      rw [readFormat, ih]
      rfl

end Formats

section Respelling

theorem respeller_keepsPlaces : respeller.KeepsPlaces where
  form n := by
    rcases mapNode_respeller n with hn | ⟨units, span, rfl, hn⟩ | ⟨e, ls, rfl, hl, hn⟩
    · exact .inl hn
    · rw [hn]
      exact .inr nofun
    · rw [hn]
      refine .inr fun hf => ?_
      cases e <;> first | cases hf | cases hl
  args {receiver} _ _ _ _ _ _ _ _ _ h := by
    cases receiver <;> exact (Expr.call.inj h).2.2.1.symm

theorem samePlace_respeller {root x : Node} (h : root.Within x) :
    Node.SamePlace root (respeller.mapNode root) x (respeller.mapNode x) ∨
      ∃ e ls, Node.SamePlace root (respeller.mapNode root) (.expr e) (.expr (formatOf ls e.span)) ∧
        e.literals? = some ls ∧ ∃ p ∈ e.parts, (Node.expr p).Within x := by
  rcases Rewriter.samePlace_of_within (w := respeller) h with h | ⟨n, hn, hne, p, hp, hpx⟩
  · exact .inl h
  rcases mapNode_respeller n with hr | ⟨units, span, rfl, _⟩ | ⟨e, ls, rfl, hl, hr⟩
  · exact absurd hr hne
  · cases hp
  · rw [hr] at hn
    obtain ⟨q, hq, rfl⟩ := List.mem_map.mp hp
    exact .inr ⟨e, ls, hn, hl, q, hq, hpx⟩

variable {D : Type} {M : Meaning D} {str : List UInt16 → D} (hM : M.ReadsStrings str)

include hM

theorem denote_literals {e : Expr} {ls : List StringLiteral} (h : e.literals? = some ls) :
    M.denote (.expr e) = str (ls.flatMap StringLiteral.units) := by
  fun_induction Expr.literals? e generalizing ls with
  | case1 units span =>
    cases Option.some.inj h
    simpa using hM.literal units span
  | case2 left right span as hl bs hr ihl ihr =>
    cases Option.some.inj h
    rw [List.flatMap_append]
    exact hM.joined span (ihl hl) (ihr hr)
  | case3 => simp at h
  | case4 => simp at h
  | case5 => simp at h

theorem denote_formatOf (ls : List StringLiteral) (span : Span) :
    M.denote (.expr (formatOf ls span)) = str (ls.flatMap StringLiteral.units) := by
  have hr := readFormat_literals ls
  rw [← String.toList_ofList (l := ls.flatMap StringLiteral.formatPart)] at hr
  refine hM.format span ?_ hr
  rw [List.map_map, List.map_map]
  exact List.map_congr_left fun l _ => hM.numbered l.units l.span

theorem denote_mapNode (n : Node) : M.denote (respeller.mapNode n) = M.denote n := by
  induction n using Node.induction_on_parts with
  | h n ih =>
    rcases mapNode_respeller n with hn | ⟨units, span, rfl, hn⟩ | ⟨e, ls, rfl, hl, hn⟩
    · rw [hn]
      refine M.denote_congr (respeller.form_walkNode n) ?_
      rw [Rewriter.parts_walkNode, List.map_map]
      exact List.map_congr_left ih
    · rw [hn, hM.numbered, hM.literal]
    -- The parts are gone, but what they were is known from the literals.
    · rw [hn, denote_formatOf hM, denote_literals hM hl]

end Respelling

structure Block.KeepsMeaning {D : Type} (M : Meaning D) (b b' : Block) : Prop where
  meaning {x x' : Node} (h : Node.SamePlace (.block b) (.block b') x x') : M.denote x' = M.denote x
  place {x : Node} (h : (Node.block b).Within x) :
    (∃ x', Node.SamePlace (.block b) (.block b') x x') ∨
      ∃ e ls, Node.SamePlace (.block b) (.block b') (.expr e) (.expr (formatOf ls e.span)) ∧
        e.literals? = some ls ∧ ∃ p ∈ e.parts, (Node.expr p).Within x

namespace ClassDecl

/-- In the bodies that run, what stands in the place of a node after respelling means what the node
meant. -/
theorem respelled_keeps_meaning {D : Type} {M : Meaning D} {str : List UInt16 → D}
    (hM : M.ReadsStrings str) (c : ClassDecl) {i : Nat} {m : Member} {b : Block}
    (hm : c.members[i]? = some m) (hb : m.running? = some b) :
    ∃ m' b', c.respelled.1.members[i]? = some m' ∧ m'.running? = some b' ∧
      b.KeepsMeaning M b' := by
  refine ⟨m.adjusted respeller, respeller.mapBlock b, ?_, ?_, ?_, ?_⟩
  · rw [members_respelled, List.getElem?_map, hm]
    rfl
  · rw [Member.running?_adjusted, hb]
    rfl
  · intro x x' h
    obtain rfl : x' = respeller.mapNode x := respeller_keepsPlaces.eq_mapNode h
    exact denote_mapNode hM x
  · intro x hx
    rcases Rewriter.samePlace_of_within (w := respeller) hx with h | ⟨n, hn, hne, p, hp, hpx⟩
    · exact .inl ⟨_, h⟩
    right
    rcases mapNode_respeller n with hr | ⟨units, span, rfl, _⟩ | ⟨e, ls, rfl, hl, hr⟩
    · exact absurd hr hne
    · cases hp
    · rw [hr] at hn
      obtain ⟨q, hq, rfl⟩ := List.mem_map.mp hp
      exact ⟨e, ls, hn, hl, q, hq, hpx⟩

end ClassDecl

def composeStrings : Node → List (Option (List UInt16)) → Option (List UInt16)
  | .expr (.string units _), _ | .expr (.unitString units _), _ => some units
  | .expr (.binary .concat _ _ _), [some us, some vs] => some (us ++ vs)
  | .expr (.formatString text _ _), args => (args.mapM id).bind (readFormat text.toList)
  | _, _ => none

def Meaning.ofStrings : Meaning (Option (List UInt16)) :=
  ⟨composeStrings⟩

theorem Meaning.ofStrings_readsStrings : ofStrings.ReadsStrings some where
  literal _ _ := denote_eq ..
  numbered _ _ := denote_eq ..
  joined s hl hr := by
    rw [denote_eq, Node.parts, Expr.parts, List.map_map, List.map_cons, List.map_singleton]
    simp only [Function.comp, hl, hr]
    rfl
  format s ha hr := by
    rw [denote_eq, Node.parts, Expr.parts, List.map_map, Function.comp_def, ha]
    change ((List.map some _).mapM id).bind _ = _
    rw [mapM_id_some]
    exact hr

namespace ClassDecl

def percentNote : Constructor :=
  .ofBody "init" [] [.ofExpr (.concat
    (.concat (.ofText "100%") (.string [0xD800] .synthetic))
    (.concat (.ofText "%@") (.ofText "!")))]

theorem respelled_keeps_meaning_percentNote :
    ∃ m' b', ((ofType ⟨⟨1⟩, "Note"⟩).push (.constructor percentNote)).respelled.1.members[0]? =
        some m' ∧ m'.running? = some b' ∧ percentNote.body.KeepsMeaning .ofStrings b' :=
  respelled_keeps_meaning Meaning.ofStrings_readsStrings _ rfl rfl

end ClassDecl

end ExplicitInit
