import ExplicitInit.Print.Literal
import ExplicitInit.Proofs.StringMeaning

namespace ExplicitInit

namespace Utf16

def Piece.units : Piece → List UInt16
  | .char c => encodeChar c
  | .lone u => [u]

theorem toNat_ofNat_of_isValidChar {n : Nat} (h : n.isValidChar) : (Char.ofNat n).toNat = n := by
  rw [Char.ofNat, dif_pos h]
  rfl

theorem isSurrogate_of_printable {u : UInt16} (h : (0x20 ≤ u && u ≤ 0x7e) = true) :
    isSurrogate u = false := by
  simp only [isSurrogate, Bool.and_eq_true, Bool.and_eq_false_iff, decide_eq_true_eq,
    decide_eq_false_iff_not, UInt16.le_iff_toNat_le] at *
  simp only [UInt16.reduceToNat] at *
  omega

theorem ofNat_ne {u : UInt16} (h : isSurrogate u = false) {c : Char} (hc : u.toNat ≠ c.toNat) :
    Char.ofNat u.toNat ≠ c := by
  rintro rfl
  exact hc (toNat_ofNat h).symm

theorem encodeChar_joined {u v : UInt16} (hu : isHighSurrogate u = true)
    (hv : isLowSurrogate v = true) : encodeChar (joined u v) = [u, v] := by
  simp only [isHighSurrogate, isLowSurrogate, Bool.and_eq_true, decide_eq_true_eq,
    UInt16.le_iff_toNat_le] at hu hv
  simp only [UInt16.reduceToNat] at hu hv
  have hvalid : (0x10000 + (u.toNat - 0xd800) * 0x400 + (v.toNat - 0xdc00)).isValidChar := by
    unfold Nat.isValidChar
    omega
  have hhigh : 0xd800 + ((u.toNat - 0xd800) * 0x400 + (v.toNat - 0xdc00)) / 0x400 = u.toNat := by
    omega
  have hlow : 0xdc00 + ((u.toNat - 0xd800) * 0x400 + (v.toNat - 0xdc00)) % 0x400 = v.toNat := by
    omega
  have hoffset : 0x10000 + (u.toNat - 0xd800) * 0x400 + (v.toNat - 0xdc00) - 0x10000 =
      (u.toNat - 0xd800) * 0x400 + (v.toNat - 0xdc00) := by omega
  rw [encodeChar, joined, toNat_ofNat_of_isValidChar hvalid, if_neg (by omega)]
  simp only [hoffset, hhigh, hlow, UInt16.ofNat_toNat]

theorem flatMap_units_pieces (us : List UInt16) : (pieces us).flatMap Piece.units = us := by
  fun_induction pieces us with
  | case1 => rfl
  | case2 u hu => rfl
  | case3 u hu =>
    rw [List.flatMap_singleton]
    exact encodeChar_ofNat (Bool.eq_false_iff.mpr hu)
  | case4 u v rest hp ih =>
    obtain ⟨hu, hv⟩ := Bool.and_eq_true_iff.mp hp
    rw [List.flatMap_cons, ih, Piece.units, encodeChar_joined hu hv]
    rfl
  | case5 u v rest hp hu ih =>
    rw [List.flatMap_cons, ih]
    rfl
  | case6 u v rest hp hu ih =>
    rw [List.flatMap_cons, ih, Piece.units, encodeChar_ofNat (Bool.eq_false_iff.mpr hu)]
    rfl

end Utf16

namespace Print

/-- Splits a text at the first closing character that has no backslash before it: the text of the
literal that ends there, and what comes after it. -/
def literalBody? (quote : Char) : List Char → Option (List Char × List Char)
  | [] => none
  | '\\' :: c :: cs => (literalBody? quote cs).map fun p => ('\\' :: c :: p.1, p.2)
  | c :: cs =>
    if c = quote then some ([], cs) else (literalBody? quote cs).map fun p => (c :: p.1, p.2)

def hexDigit? (c : Char) : Option Nat :=
  if '0' ≤ c ∧ c ≤ '9' then some (c.toNat - 48)
  else if 'a' ≤ c ∧ c ≤ 'f' then some (c.toNat - 87)
  else if 'A' ≤ c ∧ c ≤ 'F' then some (c.toNat - 55)
  else none

def hexNumber? (digits : List Char) : Option Nat :=
  digits.foldlM (fun n c => (hexDigit? c).map (16 * n + ·)) 0

def escape? (quote : Char) : Char → Option Char
  | '\\' => some '\\'
  | 'n' => some '\n'
  | 't' => some '\t'
  | 'r' => some '\r'
  | c => if c = quote then some quote else none

/-- The code units that the text of a literal stands for: `u` and exactly four hexadecimal digits
after a backslash are one unit, all else is UTF-16 text. -/
def decoded (quote : Char) : List Char → Option (List UInt16)
  | [] => some []
  | '\\' :: 'u' :: a :: b :: c :: d :: cs =>
    (hexNumber? [a, b, c, d]).bind fun n => (decoded quote cs).map (UInt16.ofNat n :: ·)
  | '\\' :: c :: cs =>
    (escape? quote c).bind fun x => (decoded quote cs).map (Utf16.encodeChar x ++ ·)
  | ['\\'] => none
  | c :: cs => (decoded quote cs).map (Utf16.encodeChar c ++ ·)

def readString? (text : String) : Option (List UInt16) :=
  match text.toList with
  | '@' :: '"' :: cs =>
    match literalBody? '"' cs with
    | some (body, []) => decoded '"' body
    | _ => none
  | _ => none

theorem forall_mem_hex {P : Char → Prop} (h : ∀ d < 16, P d.digitChar) (u : UInt16) :
    ∀ c ∈ hex u, P c := by
  simp only [hex, List.forall_mem_map, List.forall_mem_cons]
  refine ⟨h _ ?_, h _ ?_, h _ ?_, h _ ?_, by simp⟩ <;> exact Nat.mod_lt _ (by decide)

theorem hexDigit?_digitChar {d : Nat} (h : d < 16) : hexDigit? d.digitChar = some d := by
  revert d
  decide

theorem hexNumber?_hex (u : UInt16) : hexNumber? (hex u) = some u.toNat := by
  have hu : u.toNat < 0x10000 := u.toNat_lt
  have hd (n : Nat) : hexDigit? (n % 16).digitChar = some (n % 16) :=
    hexDigit?_digitChar (Nat.mod_lt n (by decide))
  simp only [hexNumber?, hex, List.map_cons, List.map_nil, List.foldlM_cons, List.foldlM_nil, hd,
    Option.map_some, Option.bind_eq_bind, Option.bind_some, Option.pure_def, Option.some.injEq]
  omega

theorem literalBody?_cons {quote c : Char} (hb : c ≠ '\\') (hc : c ≠ quote) (cs : List Char) :
    literalBody? quote (c :: cs) = (literalBody? quote cs).map fun p => (c :: p.1, p.2) := by
  rw [literalBody?, if_neg hc]
  exact fun _ _ h _ => hb h

theorem literalBody?_hex (u : UInt16) (cs : List Char) :
    literalBody? '"' (hex u ++ cs) = (literalBody? '"' cs).map fun p => (hex u ++ p.1, p.2) := by
  have hd (n : Nat) (cs : List Char) : literalBody? '"' (n.digitChar :: cs) =
      (literalBody? '"' cs).map fun p => (n.digitChar :: p.1, p.2) :=
    literalBody?_cons (Nat.digitChar_ne _ rfl) (Nat.digitChar_ne _ rfl) cs
  simp only [hex, List.map_cons, List.map_nil, List.cons_append, List.nil_append, hd,
    Option.map_map, Function.comp_def]

theorem literalBody?_escaped (p : Utf16.Piece) (cs : List Char) :
    literalBody? '"' (escaped p ++ cs) =
      (literalBody? '"' cs).map fun q => (escaped p ++ q.1, q.2) := by
  unfold escaped
  split
  case h_6 c hq hb _ _ _ => exact literalBody?_cons (by simpa using hb) (by simpa using hq) cs
  case h_7 u =>
    change literalBody? '"' ('\\' :: 'u' :: (hex u ++ cs)) = _
    rw [literalBody?, literalBody?_hex, Option.map_map]
    rfl
  all_goals rfl

theorem decoded_cons {quote c : Char} (hb : c ≠ '\\') (cs : List Char) :
    decoded quote (c :: cs) = (decoded quote cs).map (Utf16.encodeChar c ++ ·) := by
  rw [decoded]
  all_goals simp [hb]

theorem decoded_escaped (p : Utf16.Piece) (cs : List Char) :
    decoded '"' (escaped p ++ cs) = (decoded '"' cs).map (p.units ++ ·) := by
  unfold escaped
  split
  case h_6 c hq hb _ _ _ => exact decoded_cons (by simpa using hb) cs
  case h_7 u =>
    change (hexNumber? (hex u)).bind (fun n => (decoded '"' cs).map (UInt16.ofNat n :: ·)) = _
    rw [hexNumber?_hex, Option.bind_some, UInt16.ofNat_toNat]
    rfl
  all_goals rfl

theorem literalBody?_pieces (ps : List Utf16.Piece) :
    literalBody? '"' (ps.flatMap escaped ++ ['"']) = some (ps.flatMap escaped, []) := by
  induction ps with
  | nil => rfl
  | cons p ps ih =>
    rw [List.flatMap_cons, List.append_assoc, literalBody?_escaped, ih]
    rfl

theorem decoded_pieces (ps : List Utf16.Piece) :
    decoded '"' (ps.flatMap escaped) = some (ps.flatMap Utf16.Piece.units) := by
  induction ps with
  | nil => rfl
  | cons p ps ih =>
    rw [List.flatMap_cons, decoded_escaped, ih]
    rfl

theorem readString?_string (units : List UInt16) : readString? (string units) = some units := by
  rw [readString?, string, String.toList_ofList, quoted]
  change (match literalBody? '"' ((Utf16.pieces units).flatMap escaped ++ ['"']) with
    | some (body, []) => decoded '"' body
    | _ => none) = some units
  rw [literalBody?_pieces]
  exact (decoded_pieces _).trans (congrArg some (Utf16.flatMap_units_pieces units))

/-- A printed string literal reads as the code units that it was printed for, so different code
units are printed differently. -/
theorem string_readsBack :
    (∀ units, readString? (string units) = some units) ∧ Function.Injective string := by
  refine ⟨readString?_string, fun us vs h => ?_⟩
  have hu := readString?_string us
  rw [h, readString?_string] at hu
  exact (Option.some.inj hu).symm

example : string [0xd800, 0x5c, 0x75, 0x64, 0xd83d, 0xde00, 0x22] =
    "@\"\\ud800\\\\ud😀\\\"\"" := by decide

end Print

end ExplicitInit
