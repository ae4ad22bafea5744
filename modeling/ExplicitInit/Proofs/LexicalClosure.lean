import ExplicitInit.Proofs.Indentation
import ExplicitInit.Proofs.Traversals

namespace ExplicitInit

namespace Print

/-- Where a reader of a line stands: in code, at the end of a word that may be empty, or in a
literal, with what has been read of it. -/
inductive Scan where
  | code (word : List Char)
  | literal (quote : Char) (body : List Char)
  | escape (quote : Char) (body : List Char)

def isQuote (c : Char) : Bool :=
  c == '"' || c == '\''

def wordNumber? : List Char → Option Nat
  | '0' :: 'x' :: d :: ds => hexNumber? (d :: ds)
  | _ => none

def wordConstants (w : List Char) : List Constant :=
  (wordNumber? w).toList.map .number

namespace Scan

def step : Scan → Char → Option (Scan × List Constant)
  | code w, c =>
    if isWordChar c then some (code (w ++ [c]), [])
    else some (if isQuote c then literal c [] else code [], wordConstants w)
  | literal quote body, c =>
    if c = '\\' then some (escape quote body, [])
    else if c = quote then (decoded quote body).map fun units => (code [], [.literal quote units])
    else some (literal quote (body ++ [c]), [])
  | escape quote body, c => some (literal quote (body ++ ['\\', c]), [])

def read? : Scan → List Char → Option (Scan × List Constant)
  | p, [] => some (p, [])
  | p, c :: cs => (p.step c).bind fun r => (read? r.1 cs).map fun q => (q.1, r.2 ++ q.2)

def rest? : Scan → Option (List Constant)
  | code w => some (wordConstants w)
  | _ => none

end Scan

open Scan

def constantsIn? (line : List Char) : Option (List Constant) :=
  (read? (.code []) line).bind fun r => r.1.rest?.map (r.2 ++ ·)

/-- Constants that are read show given ones: these are among them in their order, and they are all
the literals. -/
def Shows (read shown : List Constant) : Prop :=
  shown.Sublist read ∧ read.filter Constant.isLiteral = shown.filter Constant.isLiteral

/-- Every line of a text ends outside of literals, and the lines show the constants. -/
def ShowsConstants (text : String) (cs : List Constant) : Prop :=
  ∃ css : List (List Constant),
    (textLines text).map constantsIn? = css.map some ∧ Shows css.flatten cs

section Reading

theorem read?_append (p : Scan) (s t : List Char) :
    read? p (s ++ t) =
      (read? p s).bind fun r => (read? r.1 t).map fun q => (q.1, r.2 ++ q.2) := by
  induction s generalizing p with
  | nil => simp [read?]
  | cons c s ih =>
    rw [List.cons_append, read?, read?, Option.bind_assoc]
    refine Option.bind_congr fun r _ => ?_
    rw [ih, Option.map_bind, Option.bind_map]
    refine Option.bind_congr fun q _ => ?_
    simp [Function.comp_def]

theorem constantsIn?_eq_some {line : List Char} {cs : List Constant} :
    constantsIn? line = some cs ↔
      ∃ w out, read? (.code []) line = some (.code w, out) ∧ cs = out ++ wordConstants w := by
  unfold constantsIn?
  constructor
  · intro h
    obtain ⟨⟨p, out⟩, hread, h⟩ := Option.bind_eq_some_iff.mp h
    cases p with
    | code w => exact ⟨w, out, hread, (Option.some.inj h).symm⟩
    | literal | escape => cases h
  · rintro ⟨w, out, hread, rfl⟩
    rw [hread]
    rfl

theorem step_word {c : Char} (h : isWordChar c = true) (w : List Char) :
    (code w).step c = some (.code (w ++ [c]), []) :=
  if_pos h

theorem isWordChar_of_step {p : Scan} {a : Char} {w : List Char} {out : List Constant}
    (h : p.step a = some (.code w, out)) (hw : w ≠ []) : isWordChar a = true := by
  by_contra ha
  cases p with
  | code v =>
    simp only [step, if_neg ha, Option.some.injEq, Prod.mk.injEq] at h
    cases hq : isQuote a <;> simp [hq, hw.symm] at h
  | literal quote body =>
    simp only [step] at h
    split at h
    · cases h
    split at h
    · obtain ⟨_, -, h⟩ := Option.map_eq_some_iff.mp h
      simp [hw.symm] at h
    · cases h
  | escape quote body => cases h

theorem isWordChar_of_read? {s w : List Char} {out : List Constant}
    (h : read? (.code []) s = some (.code w, out)) (hw : w ≠ []) :
    ∃ a ∈ s.getLast?, isWordChar a = true := by
  rcases List.eq_nil_or_concat s with rfl | ⟨s, a, rfl⟩
  · cases h
    contradiction
  rw [List.concat_eq_append, read?_append] at h
  obtain ⟨⟨p, _⟩, -, h⟩ := Option.bind_eq_some_iff.mp h
  obtain ⟨⟨r, _⟩, hread, h⟩ := Option.map_eq_some_iff.mp h
  obtain ⟨⟨q, _⟩, hstep, hr⟩ := Option.bind_eq_some_iff.mp hread
  cases hr
  cases h
  exact ⟨a, by simp, isWordChar_of_step hstep hw⟩

theorem read?_code (w : List Char) {t : List Char} (ht : t ≠ [])
    (h : ∀ b ∈ t.head?, isWordChar b = false) :
    read? (.code w) t = (read? (.code []) t).map fun q => (q.1, wordConstants w ++ q.2) := by
  obtain ⟨b, t, rfl⟩ := List.exists_cons_of_ne_nil ht
  have hb : ¬ isWordChar b = true := Bool.eq_false_iff.mp (h b rfl)
  simp only [read?, step, if_neg hb, Option.bind_some, Option.map_map]
  rfl

theorem constantsIn?_append {s t : String} {cs ds : List Constant}
    (hs : constantsIn? s.toList = some cs) (ht : constantsIn? t.toList = some ds)
    (h : Apart s t) : constantsIn? (s ++ t).toList = some (cs ++ ds) := by
  rw [String.toList_append]
  by_cases hnil : t.toList = []
  · rw [hnil] at ht
    obtain rfl : [] = ds := Option.some.inj ht
    rwa [hnil, List.append_nil, List.append_nil]
  obtain ⟨w, out, hws, rfl⟩ := constantsIn?_eq_some.mp hs
  obtain ⟨v, out', hvt, rfl⟩ := constantsIn?_eq_some.mp ht
  -- The word at the end of the first text ends there: the second text does not go on with it.
  have hvw : read? (.code w) t.toList = some (.code v, wordConstants w ++ out') := by
    by_cases hw : w = []
    · rw [hw, hvt]
      rfl
    · obtain ⟨a, ha, haw⟩ := isWordChar_of_read? hws hw
      rw [read?_code w hnil fun b hb => by simpa [haw] using h a ha b hb, hvt, Option.map_some]
  refine constantsIn?_eq_some.mpr ⟨v, out ++ (wordConstants w ++ out'), ?_, by simp⟩
  rw [read?_append, hws, Option.bind_some, hvw]
  rfl

theorem read?_silent {p q : Scan} {c : Char} (h : p.step c = some (q, [])) (cs : List Char) :
    read? p (c :: cs) = read? q cs := by
  rw [read?, h, Option.bind_some]
  exact Option.map_id'

/-- A literal is read to where its body ends, and what it shows is the body decoded. -/
theorem read?_literal (before : List Char) {quote : Char} {cs body rest : List Char}
    {units : List UInt16} (hq : quote ≠ '\\') (h : literalBody? quote cs = some (body, rest))
    (hd : decoded quote (before ++ body) = some units) :
    read? (.literal quote before) cs =
      (read? (.code []) rest).map fun q => (q.1, .literal quote units :: q.2) := by
  fun_induction literalBody? quote cs generalizing body before with
  | case1 => cases h
  | case2 c cs ih =>
    obtain ⟨⟨b, r⟩, hb, h⟩ := Option.map_eq_some_iff.mp h
    cases h
    have hslash : (literal quote before).step '\\' = some (.escape quote before, []) := rfl
    have hnext : (escape quote before).step c = some (.literal quote (before ++ ['\\', c]), []) :=
      rfl
    rw [read?_silent hslash, read?_silent hnext]
    exact ih _ hb (by simpa using hd)
  | case3 cs =>
    cases h
    have hend : (literal quote before).step quote = some (.code [], [.literal quote units]) := by
      rw [step, if_neg hq, if_pos rfl, ← List.append_nil before, hd]
      rfl
    rw [read?, hend, Option.bind_some]
    rfl
  | case4 c cs hc hne ih =>
    obtain ⟨⟨b, r⟩, hb, h⟩ := Option.map_eq_some_iff.mp h
    cases h
    have hslash : c ≠ '\\' := by
      rintro rfl
      cases cs with
      | nil => cases hb
      | cons c cs => exact hc c cs rfl rfl
    have hnext : (literal quote before).step c = some (.literal quote (before ++ [c]), []) := by
      rw [step, if_neg hslash, if_neg hne]
    rw [read?_silent hnext]
    exact ih _ hb (by simpa using hd)

theorem read?_word (w : List Char) {s : List Char} (h : ∀ c ∈ s, isWordChar c = true) :
    read? (.code w) s = some (.code (w ++ s), []) := by
  induction s generalizing w with
  | nil => rw [List.append_nil, read?]
  | cons c s ih =>
    obtain ⟨hc, hs⟩ := List.forall_mem_cons.mp h
    rw [read?_silent (step_word hc w), ih _ hs, List.append_assoc]
    rfl

end Reading

section Constants

def isPlain (c : Char) : Prop :=
  c ≠ '"' ∧ c ≠ '\'' ∧ c ≠ '\\' ∧ c ≠ '\n'

theorem isPlain_of_isCodeChar (c : Char) (h : isCodeChar c = true) : isPlain c := by
  refine ⟨?_, ?_, ?_, isCodeChar_newline c h⟩ <;> rintro rfl <;> contradiction

theorem isLiteral_of_mem_wordConstants {w : List Char} {c : Constant} (h : c ∈ wordConstants w) :
    c.isLiteral = false := by
  obtain ⟨n, -, rfl⟩ := List.mem_map.mp h
  rfl

theorem read?_code_of_plain (w : List Char) {s : List Char} (h : ∀ c ∈ s, isPlain c) :
    ∃ v out, read? (.code w) s = some (.code v, out) ∧ ∀ c ∈ out, c.isLiteral = false := by
  induction s generalizing w with
  | nil => exact ⟨w, [], rfl, by simp⟩
  | cons c s ih =>
    obtain ⟨hc, hs⟩ := List.forall_mem_cons.mp h
    by_cases hword : isWordChar c = true
    · obtain ⟨v, out, hv, hout⟩ := ih (w ++ [c]) hs
      exact ⟨v, out, (read?_silent (step_word hword w) s).trans hv, hout⟩
    · obtain ⟨v, out, hv, hout⟩ := ih [] hs
      have hquote : ¬ isQuote c = true := by simp [isQuote, hc.1, hc.2.1]
      refine ⟨v, wordConstants w ++ out, ?_, ?_⟩
      · rw [read?, step, if_neg hword, if_neg hquote, Option.bind_some, hv]
        rfl
      · exact List.forall_mem_append.mpr ⟨fun _ => isLiteral_of_mem_wordConstants, hout⟩

theorem constantsIn?_of_plain {s : List Char} (h : ∀ c ∈ s, isPlain c) :
    ∃ out, constantsIn? s = some out ∧ ∀ c ∈ out, c.isLiteral = false := by
  obtain ⟨w, out, hw, hout⟩ := read?_code_of_plain [] h
  exact ⟨_, constantsIn?_eq_some.mpr ⟨w, out, hw, rfl⟩,
    List.forall_mem_append.mpr ⟨hout, fun _ => isLiteral_of_mem_wordConstants⟩⟩

theorem constantsIn?_string (units : List UInt16) :
    constantsIn? (string units).toList = some [.literal '"' units] := by
  have hbody := literalBody?_pieces (Utf16.pieces units)
  have hdecoded := decoded_pieces (Utf16.pieces units)
  rw [Utf16.flatMap_units_pieces] at hdecoded
  have hread := read?_literal [] (by decide) hbody hdecoded
  have hat : (code []).step '@' = some (.code [], []) := rfl
  have hquote : (code []).step '"' = some (.literal '"' [], []) := rfl
  refine constantsIn?_eq_some.mpr ⟨[], [.literal '"' units], ?_, rfl⟩
  rw [string, String.toList_ofList, quoted]
  rw [List.cons_append, List.cons_append, read?_silent hat, read?_silent hquote, hread]
  rfl

theorem constantsIn?_char {u : UInt16} (hq : u ≠ 0x27) (hb : u ≠ 0x5c) :
    constantsIn? (char u).toList = some [.ofChar u] := by
  unfold char Constant.ofChar
  split
  case isTrue h =>
    have hu := Utf16.isSurrogate_of_printable h
    have hquote : Char.ofNat u.toNat ≠ '\'' := Utf16.ofNat_ne hu fun h => hq (UInt16.toNat_inj.mp h)
    have hslash : Char.ofNat u.toNat ≠ '\\' := Utf16.ofNat_ne hu fun h => hb (UInt16.toNat_inj.mp h)
    have hbody := literalBody?_cons hslash hquote ['\'']
    have hdecoded : decoded '\'' [Char.ofNat u.toNat] = _ := decoded_cons hslash []
    rw [Utf16.encodeChar_ofNat hu] at hdecoded
    have hread := read?_literal [] (by decide) hbody hdecoded
    have hopen : (code []).step '\'' = some (.literal '\'' [], []) := rfl
    refine constantsIn?_eq_some.mpr ⟨[], [.literal '\'' [u]], ?_, rfl⟩
    rw [String.toList_ofList, read?_silent hopen, hread]
    rfl
  case isFalse =>
    have hword : ∀ c ∈ '0' :: 'x' :: hex u, isWordChar c = true :=
      List.forall_mem_cons.mpr ⟨rfl, List.forall_mem_cons.mpr ⟨rfl, forall_mem_hex (by decide) u⟩⟩
    refine constantsIn?_eq_some.mpr ⟨'0' :: 'x' :: hex u, [], ?_, ?_⟩
    · rw [String.toList_ofList]
      exact read?_word [] hword
    · have hn : wordNumber? ('0' :: 'x' :: hex u) = hexNumber? (hex u) := rfl
      rw [wordConstants, hn, hexNumber?_hex]
      rfl

theorem Shows.append {cs ds cs' ds' : List Constant} (h : Shows ds cs) (h' : Shows ds' cs') :
    Shows (ds ++ ds') (cs ++ cs') := by
  refine ⟨h.1.append h'.1, ?_⟩
  rw [List.filter_append, List.filter_append, h.2, h'.2]

/-- No character constant among these would need a backslash in its literal. -/
def NeedNoEscape (cs : List Constant) : Prop :=
  .ofChar 0x27 ∉ cs ∧ .ofChar 0x5c ∉ cs

theorem needNoEscape_append {cs ds : List Constant} :
    NeedNoEscape (cs ++ ds) ↔ NeedNoEscape cs ∧ NeedNoEscape ds := by
  simp only [NeedNoEscape, List.mem_append, not_or]
  tauto

theorem Composed.shows {t : String} {cs : List Constant} (h : Composed isPlain t cs)
    (hc : NeedNoEscape cs) : ∃ ds, constantsIn? t.toList = some ds ∧ Shows ds cs := by
  induction h with
  | code h =>
    obtain ⟨ds, hread, hds⟩ := constantsIn?_of_plain h
    refine ⟨ds, hread, ds.nil_sublist, ?_⟩
    rw [List.filter_nil, List.filter_eq_nil_iff]
    exact fun c hc => by simp [hds c hc]
  | string units => exact ⟨_, constantsIn?_string units, .refl _, rfl⟩
  | char u =>
    have hne {v : UInt16} (hv : .ofChar v ∉ [Constant.ofChar u]) : u ≠ v := by
      rintro rfl
      exact hv List.mem_cons_self
    exact ⟨_, constantsIn?_char (hne hc.1) (hne hc.2), .refl _, rfl⟩
  | append _ _ hst ihs iht =>
    obtain ⟨hcs, hcs'⟩ := needNoEscape_append.mp hc
    obtain ⟨ds, hs, hds⟩ := ihs hcs
    obtain ⟨ds', ht, hds'⟩ := iht hcs'
    exact ⟨ds ++ ds', constantsIn?_append hs ht hst, hds.append hds'⟩

theorem Composed.chars {P : Char → Prop} (hP : ∀ c, isCodeChar c = true → P c) {t : String}
    {cs : List Constant} (h : Composed P t cs) (d : Nat) :
    Composed P (String.ofList (Line.chars ⟨d, t⟩)) cs := by
  have hmem {c : Char} (hc : c ∈ (String.ofList (indented d [])).toList) : c = ' ' := by
    rw [String.toList_ofList, indented, List.append_nil] at hc
    exact List.eq_of_mem_replicate hc
  have hspaces : Composed P (String.ofList (indented d [])) [] :=
    .code fun c hc => hmem hc ▸ hP ' ' rfl
  have hline : String.ofList (Line.chars ⟨d, t⟩) = String.ofList (indented d []) ++ t := by
    simp [Line.chars, indented]
  rw [hline]
  refine .append hspaces h fun a ha b _ => ?_
  rw [hmem (List.mem_of_getLast? ha)]
  rfl

theorem LaidOut.shows {f : Nat → List Line} {cs : List Constant} (h : LaidOut isPlain f cs)
    (hc : NeedNoEscape cs) (d : Nat) :
    ∃ css : List (List Constant),
      ((f d).map Line.chars).map constantsIn? = css.map some ∧ Shows css.flatten cs := by
  have hline (d : Nat) {t : String} {cs : List Constant} (ht : Composed isPlain t cs)
      (hc : NeedNoEscape cs) : ∃ ds, constantsIn? (Line.chars ⟨d, t⟩) = some ds ∧ Shows ds cs := by
    have h := (ht.chars isPlain_of_isCodeChar d).shows hc
    rwa [String.toList_ofList] at h
  induction h generalizing d with
  | nil => exact ⟨[], rfl, .refl _, rfl⟩
  | line h =>
    obtain ⟨ds, hread, hds⟩ := hline d (.before isPlain_of_isCodeChar h (t := ";") rfl) hc
    exact ⟨[ds], by simp [hread], by simpa using hds⟩
  | braced h _ ih =>
    obtain ⟨hcs, hinside⟩ := needNoEscape_append.mp hc
    obtain ⟨ds, hread, hds⟩ := hline d (.before isPlain_of_isCodeChar h (t := "\x7b") rfl) hcs
    obtain ⟨css, hreads, hcss⟩ := ih hinside (d + 1)
    obtain ⟨ds', hread', hds'⟩ :=
      hline d (.code (spelled_of_code isPlain_of_isCodeChar (t := "\x7d") rfl)) ⟨by simp, by simp⟩
    refine ⟨ds :: css ++ [ds'], ?_, ?_⟩
    · simp [Print.braced, hread, hreads, hread']
    · simpa using hds.append (hcss.append hds')
  | append _ _ hb ha =>
    obtain ⟨hcs, hcs'⟩ := needNoEscape_append.mp hc
    obtain ⟨css, hreads, hcss⟩ := hb hcs d
    obtain ⟨css', hreads', hcss'⟩ := ha hcs' d
    refine ⟨css ++ css', ?_, ?_⟩
    · rw [List.map_append, List.map_append, List.map_append, hreads, hreads']
    · rw [List.flatten_append]
      exact hcss.append hcss'

theorem mem_shown_of_literal {n : Node} {units : List UInt16}
    (h : .literal '\'' units ∈ n.constants) : ∃ u s, .expr (.char u s) ∈ n.shown ∧ units = [u] := by
  obtain ⟨x, hx, hc⟩ := List.mem_filterMap.mp h
  match x with
  | .expr (.char u s) =>
    refine ⟨u, s, hx, ?_⟩
    have hu : Constant.ofChar u = .literal '\'' units := Option.some.inj hc
    unfold Constant.ofChar at hu
    split at hu <;> cases hu
    rfl
  | .expr (.string ..) | .expr (.formatString ..) => cases hc

end Constants

/-- Every line of the text of a statement ends outside of literals, and its string and character
literals are those of the constants that the statement shows, if no quote and no backslash is shown
as a character. The receiver of a static field is not shown. -/
theorem lines_show_constants (s : Stmt) (hs : (Node.stmt s).IsSpelled isPlain)
    (hc : ∀ u span, .expr (.char u span) ∈ (Node.stmt s).shown → u ≠ 0x27 ∧ u ≠ 0x5c) :
    ShowsConstants s.text (Node.stmt s).constants := by
  have h := laidOut_stmt isPlain_of_isCodeChar hs
  have hnewline : (Node.stmt s).IsSpelled (· ≠ '\n') := fun x hx label hl c hcl =>
    (hs x hx label hl c hcl).2.2.2
  have hlines := (laidOut_stmt isCodeChar_newline hnewline).oneLine 0
  have hescape : NeedNoEscape (Node.stmt s).constants := by
    constructor <;> intro hmem <;> obtain ⟨u, span, hu, hun⟩ := mem_shown_of_literal hmem
    · exact (hc u span hu).1 (List.cons.inj hun).1.symm
    · exact (hc u span hu).2 (List.cons.inj hun).1.symm
  rw [ShowsConstants, Stmt.text, textLines_render hlines]
  exact h.shows hescape 0

def markStmt : Stmt :=
  .ofExpr (.assignment (.localVar "mark") (.concat (.char 0x22 .synthetic)
    (.concat (.ofText "it's \"\\\"") (.char 0xe9 .synthetic))))

theorem lines_show_constants_mark :
    (Node.stmt markStmt).IsSpelled isPlain ∧
      ShowsConstants markStmt.text (Node.stmt markStmt).constants := by
  have hs : (Node.stmt markStmt).IsSpelled isPlain := by
    simp [markStmt, Node.isSpelled_iff, Node.labels, Node.parts, Stmt.parts, Expr.parts,
      Binding.labels, Spelled, Stmt.ofExpr, Expr.localVar, Expr.assignment, Expr.concat,
      Expr.operation, Expr.ofText, isPlain]
  refine ⟨hs, lines_show_constants markStmt hs fun u span hu => ?_⟩
  simp [markStmt, Node.shown_eq, Node.shownParts, Node.parts, Stmt.parts, Expr.parts, Stmt.ofExpr,
    Expr.localVar, Expr.assignment, Expr.concat, Expr.operation, Expr.ofText] at hu
  rcases hu with ⟨rfl, -⟩ | ⟨rfl, -⟩ <;> decide

def sharedOrder : Stmt :=
  .ofExpr (.access (.ofText "a") ⟨⟨⟨1⟩, "Text"⟩, "order", true⟩)

theorem not_showsConstants_sharedOrder :
    (Node.stmt sharedOrder).IsSpelled isPlain ∧ ¬ ShowsConstants sharedOrder.text
      ((Node.stmt sharedOrder).preorder.filterMap Node.constant?) := by
  refine ⟨?_, ?_⟩
  · simp [sharedOrder, Node.isSpelled_iff, Node.labels, FieldRef.labels, Node.parts, Stmt.parts,
      Expr.parts, Spelled, Stmt.ofExpr, Expr.access, Expr.ofText, isPlain]
  rintro ⟨css, hread, hshown, -⟩
  have hlines : (textLines sharedOrder.text).map constantsIn? = [some []] := by decide +kernel
  have hconstants : (Node.stmt sharedOrder).preorder.filterMap Node.constant? =
      [.literal '"' (Utf16.encode "a")] := by
    simp [sharedOrder, Node.preorder_eq, Node.parts, Stmt.parts, Expr.parts, List.filterMap_cons,
      Node.constant?, Expr.constant?, Stmt.ofExpr, Expr.access, Expr.ofText]
  have hcss : css = [[]] :=
    List.map_injective_iff.mpr (fun _ _ => Option.some.inj) (hread.symm.trans hlines)
  rw [hconstants, hcss] at hshown
  cases hshown

end Print

end ExplicitInit
