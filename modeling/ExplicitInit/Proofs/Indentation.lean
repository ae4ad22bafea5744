import ExplicitInit.Proofs.PrintedText

namespace ExplicitInit

namespace Print

def textLines (text : String) : List (List Char) :=
  let ls := text.toList.splitOn '\n'
  if ls.getLast? = some [] then ls.dropLast else ls

def indented (depth : Nat) (l : List Char) : List Char :=
  List.replicate (2 * depth) ' ' ++ l

def opensBlock (l : List Char) : Bool :=
  l.getLast? == some '\x7b'

def closesBlock (l : List Char) : Bool :=
  l.dropWhile (· == ' ') == ['\x7d']

def levelAt? (n : Nat) (l : List Char) : Option Nat :=
  if closesBlock l then (if n = 0 then none else some (n - 1)) else some n

/-- Counts through lines: down before a line that is only a closing brace, up after a line that ends
in an opening one. There is no count if it would go below zero, or if a line does not start with
twice as many spaces as the counter says. -/
def nesting? : Nat → List (List Char) → Option Nat
  | n, [] => some n
  | n, l :: ls => (levelAt? n l).bind fun m =>
    if (indented m []).isPrefixOf l then nesting? (if opensBlock l then m + 1 else m) ls else none

theorem nesting?_append (n : Nat) (ls ms : List (List Char)) :
    nesting? n (ls ++ ms) = (nesting? n ls).bind (nesting? · ms) := by
  induction ls generalizing n with
  | nil => rfl
  | cons l ls ih =>
    rw [List.cons_append, nesting?, nesting?, Option.bind_assoc]
    refine Option.bind_congr fun m _ => ?_
    split
    · exact ih _
    · rfl

theorem indented_indented (d k : Nat) (l : List Char) :
    indented d (indented k l) = indented (d + k) l := by
  rw [indented, indented, indented, ← List.append_assoc, List.replicate_append_replicate,
    Nat.mul_add]

end Print

def Line.chars (l : Line) : List Char :=
  Print.indented l.depth l.text.toList

namespace Print

section Lines

theorem textLines_cons {l rest : List Char} (h : '\n' ∉ l) :
    textLines (String.ofList (l ++ '\n' :: rest)) = l :: textLines (String.ofList rest) := by
  simp only [textLines, String.toList_ofList]
  rw [List.splitOn_append_cons_self_of_not_mem h]
  have hne := List.splitOn_ne_nil '\n' rest
  rw [List.getLast?_cons_of_ne_nil hne, List.dropLast_cons_of_ne_nil hne]
  split <;> rfl

theorem render_cons (l : Line) (ls : List Line) :
    render (l :: ls) = String.ofList (l.chars ++ '\n' :: (render ls).toList) := by
  rw [← String.toList_inj]
  simp [render, Line.render, Line.chars, indented, String.toList_join]

theorem textLines_render {ls : List Line} (h : ∀ l ∈ ls, Spelled (· ≠ '\n') l.text) :
    textLines (render ls) = ls.map Line.chars := by
  induction ls with
  | nil => rfl
  | cons l ls ih =>
    obtain ⟨hl, hls⟩ := List.forall_mem_cons.mp h
    have hchars : '\n' ∉ l.chars := by
      intro hc
      rcases List.mem_append.mp hc with hc | hc
      · exact absurd (List.eq_of_mem_replicate hc) (by decide)
      · exact hl _ hc rfl
    rw [render_cons, textLines_cons hchars, String.ofList_toList, ih hls, List.map_cons]

theorem newline_notMem_hex (u : UInt16) : '\n' ∉ hex u := fun h =>
  forall_mem_hex (P := (· ≠ '\n')) (by decide) u _ h rfl

theorem spelled_string (units : List UInt16) : Spelled (· ≠ '\n') (string units) := by
  have hpiece (p : Utf16.Piece) : '\n' ∉ escaped p := by
    unfold escaped
    split
    case h_6 hn _ _ => simpa [eq_comm] using hn
    case h_7 u => simp [newline_notMem_hex]
    all_goals decide
  rintro c hc rfl
  rw [string, String.toList_ofList, quoted] at hc
  simp [hpiece] at hc

theorem spelled_char (u : UInt16) : Spelled (· ≠ '\n') (char u) := by
  rintro c hc rfl
  unfold char at hc
  split at hc
  case isTrue h =>
    have hn : u.toNat ≠ '\n'.toNat := by
      rw [Bool.and_eq_true_iff, decide_eq_true_eq, UInt16.le_iff_toNat_le] at h
      have := h.1
      simp only [UInt16.reduceToNat] at this
      simp
      omega
    have hne := Utf16.ofNat_ne (Utf16.isSurrogate_of_printable h) hn
    simp [hne.symm] at hc
  case isFalse => simp [newline_notMem_hex] at hc

theorem Composed.spelled {t : String} {cs : List Constant} (h : Composed (· ≠ '\n') t cs) :
    Spelled (· ≠ '\n') t := by
  induction h with
  | code h => exact h
  | string units => exact spelled_string units
  | char u => exact spelled_char u
  | append _ _ _ hs ht => exact hs.append ht

end Lines

section Nesting

variable {P : Char → Prop} {f : Nat → List Line} {cs : List Constant}

theorem isCodeChar_newline (c : Char) (h : isCodeChar c = true) : c ≠ '\n' := by
  rintro rfl
  contradiction

theorem LaidOut.oneLine (h : LaidOut (· ≠ '\n') f cs) (d : Nat) :
    ∀ l ∈ f d, Spelled (· ≠ '\n') l.text := by
  have hcode {t : String} (ht : t.toList.all isCodeChar = true) : Spelled (· ≠ '\n') t :=
    spelled_of_code isCodeChar_newline ht
  induction h generalizing d with
  | nil => simp
  | line h => exact List.forall_mem_singleton.mpr (h.spelled.append (hcode rfl))
  | braced h _ ih =>
    refine List.forall_mem_append.mpr ⟨List.forall_mem_cons.mpr ⟨?_, ih (d + 1)⟩, ?_⟩
    · exact h.spelled.append (hcode rfl)
    · exact List.forall_mem_singleton.mpr (hcode (t := "\x7d") rfl)
  | append _ _ hb ha => exact List.forall_mem_append.mpr ⟨hb d, ha d⟩

theorem LaidOut.chars_add (h : LaidOut P f cs) (d k : Nat) :
    (f (d + k)).map Line.chars = ((f k).map Line.chars).map (indented d) := by
  have hline (k : Nat) (t : String) : Line.chars ⟨d + k, t⟩ = indented d (Line.chars ⟨k, t⟩) :=
    (indented_indented d k t.toList).symm
  induction h generalizing k with
  | nil => rfl
  | line _ => simp [hline]
  | braced _ _ ih =>
    simp only [Print.braced, List.cons_append, List.map_cons, List.map_append, List.map_nil, hline]
    rw [Nat.add_assoc, ih]
  | append _ _ hb ha => rw [List.map_append, hb, ha, List.map_append, List.map_append]

theorem dropWhile_indented (d : Nat) (l : List Char) :
    (indented d l).dropWhile (· == ' ') = l.dropWhile (· == ' ') :=
  List.dropWhile_append_of_pos fun c hc => by simp [List.eq_of_mem_replicate hc]

theorem isPrefixOf_chars (d : Nat) (t : String) :
    (indented d []).isPrefixOf (Line.chars ⟨d, t⟩) = true := by
  rw [List.isPrefixOf_iff_prefix, indented, List.append_nil]
  exact List.prefix_append ..

theorem getLast?_of_closesBlock {l : List Char} (h : closesBlock l = true) :
    l.getLast? = some '\x7d' := by
  have hl := List.takeWhile_append_dropWhile (p := (· == ' ')) (l := l)
  rw [beq_iff_eq.mp h] at hl
  rw [← hl, List.getLast?_append]
  rfl

theorem nesting?_line {d : Nat} {t : String} {c : Char} (hc : t.toList.getLast? = some c)
    (hclose : c ≠ '\x7d') (ls : List (List Char)) :
    nesting? d (Line.chars ⟨d, t⟩ :: ls) = nesting? (if c = '\x7b' then d + 1 else d) ls := by
  have hlast : (Line.chars ⟨d, t⟩).getLast? = some c := by
    rw [Line.chars, indented, List.getLast?_append, hc]
    rfl
  have hlevel : levelAt? d (Line.chars ⟨d, t⟩) = some d := by
    refine if_neg fun h => hclose ?_
    exact Option.some.inj (hlast.symm.trans (getLast?_of_closesBlock h))
  rw [nesting?, hlevel, Option.bind_some, if_pos (isPrefixOf_chars d _), opensBlock, hlast]
  simp

theorem nesting?_closing (d : Nat) (ls : List (List Char)) :
    nesting? (d + 1) (Line.chars ⟨d, "\x7d"⟩ :: ls) = nesting? d ls := by
  have hclose : closesBlock (Line.chars ⟨d, "\x7d"⟩) = true := by
    rw [closesBlock, Line.chars, dropWhile_indented]
    simp
  have hopen : opensBlock (Line.chars ⟨d, "\x7d"⟩) = false := by
    rw [opensBlock, getLast?_of_closesBlock hclose]
    rfl
  rw [nesting?, levelAt?, if_pos hclose, if_neg (Nat.succ_ne_zero d), Option.bind_some,
    Nat.add_sub_cancel, if_pos (isPrefixOf_chars d _), hopen]
  rfl

/-- Counting through lines comes back to where it began. -/
theorem LaidOut.nesting (h : LaidOut P f cs) (d : Nat) :
    nesting? d ((f d).map Line.chars) = some d := by
  induction h generalizing d with
  | nil => rfl
  | line _ =>
    rw [List.map_singleton, nesting?_line (c := ';') (by simp) (by decide)]
    rfl
  | braced _ _ ih =>
    simp only [Print.braced, List.map_append, List.map_cons, List.cons_append, List.map_nil]
    rw [nesting?_line (c := '\x7b') (by simp) (by decide), if_pos rfl, nesting?_append, ih,
      Option.bind_some, nesting?_closing]
    rfl
  | append _ _ hb ha =>
    rw [List.map_append, nesting?_append, hb, Option.bind_some, ha]

theorem LaidOut.nesting_text (h : LaidOut (· ≠ '\n') f cs) :
    nesting? 0 (textLines (render (f 0))) = some 0 := by
  rw [textLines_render (h.oneLine 0), h.nesting 0]

end Nesting

/-- A statement at some depth is printed as the lines of the statement alone, moved to the right. In
the lines of a statement, a constructor or a method the counter of braces never goes below zero,
comes back to zero, and is at each line the depth of its indentation. -/
theorem lines_follow_nesting :
    (∀ s : Stmt, (Node.stmt s).IsSpelled (· ≠ '\n') →
      (∀ d, textLines (render (stmt d s)) = (textLines s.text).map (indented d)) ∧
        nesting? 0 (textLines s.text) = some 0) ∧
    (∀ k : Constructor, k.IsSpelled (· ≠ '\n') → nesting? 0 (textLines k.text) = some 0) ∧
      ∀ m : Method, m.IsSpelled (· ≠ '\n') → nesting? 0 (textLines m.text) = some 0 := by
  refine ⟨fun s hs => ?_, fun k hk => ?_, fun m hm => ?_⟩
  · have h := laidOut_stmt isCodeChar_newline hs
    refine ⟨fun d => ?_, h.nesting_text⟩
    rw [Stmt.text, textLines_render (h.oneLine d), textLines_render (h.oneLine 0)]
    exact h.chars_add d 0
  · exact (laidOut_constructor isCodeChar_newline hk).nesting_text
  · exact (laidOut_method isCodeChar_newline hm).nesting_text

def lampSwitch : Stmt :=
  .ifElse (.localVar "dark")
    (.ofList [.ofExpr (.assignment (.localVar "note") (.ofText "lit\n\x7b"))])
    (some (.returning none))

theorem isSpelled_lampSwitch : (Node.stmt lampSwitch).IsSpelled (· ≠ '\n') := by
  simp [lampSwitch, Node.isSpelled_iff, Node.labels, Node.parts, Stmt.parts, Expr.parts,
    Binding.labels, Spelled, Stmt.ifElse, Stmt.ofList, Stmt.ofExpr, Stmt.returning, Block.ofList,
    Expr.localVar, Expr.assignment, Expr.ofText]

def lampConstructor : Constructor :=
  .ofBody "initWithLamp:" [⟨"dark", "BOOL", .declared⟩] [lampSwitch]

def lampMethod : Method :=
  ⟨"toggle", .ordinary, false, [], "void", .ofList [lampSwitch], false, .synthetic⟩

theorem lines_follow_nesting_lamp :
    ((Node.stmt lampSwitch).IsSpelled (· ≠ '\n') ∧
      textLines (render (stmt 3 lampSwitch)) = (textLines lampSwitch.text).map (indented 3) ∧
        nesting? 0 (textLines lampSwitch.text) = some 0) ∧
    (lampConstructor.IsSpelled (· ≠ '\n') ∧
      nesting? 0 (textLines lampConstructor.text) = some 0) ∧
      lampMethod.IsSpelled (· ≠ '\n') ∧ nesting? 0 (textLines lampMethod.text) = some 0 := by
  have hbody : (Node.block (.ofList [lampSwitch])).IsSpelled (· ≠ '\n') := by
    simp [Node.isSpelled_iff (n := .block _), Node.labels, Node.parts, Block.ofList,
      isSpelled_lampSwitch]
  have hk : lampConstructor.IsSpelled (· ≠ '\n') :=
    ⟨by simp [lampConstructor, Constructor.ofBody, Param.labels, Spelled], hbody⟩
  have hm : lampMethod.IsSpelled (· ≠ '\n') := ⟨by simp [lampMethod, Spelled], hbody⟩
  obtain ⟨hs, hks, hms⟩ := lines_follow_nesting
  obtain ⟨hdeep, hcount⟩ := hs lampSwitch isSpelled_lampSwitch
  exact ⟨⟨isSpelled_lampSwitch, hdeep 3, hcount⟩, ⟨hk, hks _ hk⟩, hm, hms _ hm⟩

example : textLines lampMethod.text =
    ["- (void)toggle \x7b", "  if (dark) \x7b", "    note = @\"lit\\n\x7b\";", "  \x7d",
      "  else \x7b", "    return;", "  \x7d", "\x7d"].map String.toList := by decide +kernel

end Print

end ExplicitInit
