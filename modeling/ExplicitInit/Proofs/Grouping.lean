import ExplicitInit.Proofs.PrintedText

namespace ExplicitInit

inductive Operand where
  | int (value : Int)
  | name (x : String)
deriving DecidableEq

inductive Operation where
  | operand (x : Operand)
  | binary (op : BinaryOp) (left right : Operation)
deriving DecidableEq

def BinaryOp.precedence : BinaryOp → Nat
  | or => 1
  | and => 2
  | equal | notEqual => 3
  | less | lessEqual | greater | greaterEqual => 4
  | add | subtract | concat => 5
  | multiply | divide | remainder => 6

def Expr.operation? : Expr → Option Operation
  | .int value _ => some (.operand (.int value.toInt))
  | .name x (some .localVar) _ => some (.operand (.name x))
  | .binary op left right _ =>
    if op = .concat then none
    else left.operation?.bind fun l => right.operation?.map fun r => .binary op l r
  | _ => none

namespace Print

def isNameChar (c : Char) : Bool :=
  isWordChar c || '\x7f' < c

def isIdentifier : List Char → Bool
  | [] => false
  | c :: cs => isNameChar c && !c.isDigit && cs.all isNameChar

inductive Token where
  | operand (x : Operand)
  | operator (op : BinaryOp)
deriving DecidableEq

def digits? (w : List Char) : Option Nat :=
  if w ≠ [] ∧ w.all Char.isDigit then some (Nat.ofDigitChars 10 w 0) else none

def number? : List Char → Option Int
  | '-' :: w => (digits? w).map fun n => -n
  | w => (digits? w).map Int.ofNat

def operators : List BinaryOp :=
  [.add, .subtract, .multiply, .divide, .remainder, .equal, .notEqual, .less, .lessEqual, .greater,
    .greaterEqual, .and, .or]

/-- A minus sign is a part of the number that it stands in front of. -/
def token? (w : List Char) : Option Token :=
  if isIdentifier w then some (.operand (.name (String.ofList w)))
  else match number? w with
    | some i => some (.operand (.int i))
    | none => (operators.find? (·.symbol.toList == w)).map .operator

def tokens? (text : String) : Option (List Token) :=
  (text.toList.splitOn ' ').mapM token?

/-- What tokens denote where only operators stand that bind as tightly as some precedence or more:
the left operand of an operator may have operators of the same precedence, the right one may not. -/
inductive Denotes : Nat → List Token → Operation → Prop
  | operand (k : Nat) (x : Operand) : Denotes k [.operand x] (.operand x)
  | binary {k : Nat} {op : BinaryOp} {ls rs : List Token} {l r : Operation}
      (hk : k ≤ op.precedence) (hl : Denotes op.precedence ls l)
      (hr : Denotes (op.precedence + 1) rs r) :
      Denotes k (ls ++ .operator op :: rs) (.binary op l r)

def ReadsAs (text : String) (o : Operation) : Prop :=
  ∃ ts, tokens? text = some ts ∧ Denotes 0 ts o

end Print

namespace Operation

def names : Operation → List String
  | operand (.int _) => []
  | operand (.name x) => [x]
  | binary _ l r => l.names ++ r.names

def precedence? : Operation → Option Nat
  | binary op _ _ => some op.precedence
  | _ => none

/-- Every operand binds as tightly as its place asks for: on the left as tightly as the operator, on
the right more tightly. -/
def Grouped : Operation → Prop
  | binary op l r => (∀ p ∈ l.precedence?, op.precedence ≤ p) ∧
      (∀ p ∈ r.precedence?, op.precedence < p) ∧ l.Grouped ∧ r.Grouped
  | _ => True

def tokens : Operation → List Print.Token
  | operand x => [.operand x]
  | binary op l r => l.tokens ++ .operator op :: r.tokens

end Operation

namespace Print

section Readings

variable {k : Nat} {ts : List Token} {o : Operation}

theorem Denotes.le_precedence (h : Denotes k ts o) {op : BinaryOp} (hop : .operator op ∈ ts) :
    k ≤ op.precedence := by
  induction h with
  | operand => simp at hop
  | binary hk _ _ ihl ihr =>
    rcases List.mem_append.mp hop with hl | hr
    · exact Nat.le_trans hk (ihl hl)
    rcases List.mem_cons.mp hr with heq | hr
    · cases heq
      exact hk
    · have := ihr hr
      omega

/-- An operator in the right operand of another one binds more tightly than that, and so it does not
have it in its left operand. -/
theorem Denotes.not_crossing {op op' : BinaryOp} {between ls rs : List Token} {r l' : Operation}
    (hr : Denotes (op.precedence + 1) (between ++ .operator op' :: rs) r)
    (hl' : Denotes op'.precedence (ls ++ .operator op :: between) l') : False := by
  have hright : op.precedence + 1 ≤ op'.precedence := hr.le_precedence (by simp)
  have hleft : op'.precedence ≤ op.precedence := hl'.le_precedence (by simp)
  omega

/-- Tokens have one reading. -/
theorem Denotes.unique (h : Denotes k ts o) {j : Nat} {o' : Operation} (h' : Denotes j ts o') :
    o = o' := by
  induction h generalizing j o' with
  | operand k x =>
    generalize hts : [Token.operand x] = ts at h'
    cases h' with
    | operand => cases hts; rfl
    | binary => simp [List.cons_eq_append_iff] at hts
  | @binary k op ls rs l r hk hl hr ihl ihr =>
    generalize hts : ls ++ Token.operator op :: rs = ts at h'
    cases h' with
    | operand => simp [List.append_eq_cons_iff] at hts
    | @binary _ op' ls' rs' l' r' hk' hl' hr' =>
      rcases List.append_eq_append_iff.mp hts with ⟨es, rfl, hrs⟩ | ⟨es, rfl, hrs⟩ <;>
        rcases List.cons_eq_append_iff.mp hrs with ⟨rfl, hrs⟩ | ⟨es', rfl, rfl⟩
      · cases hrs
        rw [List.append_nil] at hl'
        rw [ihl hl', ihr hr']
      · -- The second root stands to the right of the first.
        exact (hr.not_crossing hl').elim
      · cases hrs
        rw [List.append_nil] at ihl
        rw [ihl hl', ihr hr']
      · exact (hr'.not_crossing hl).elim

theorem Denotes.extend (h : Denotes k ts o) {op : BinaryOp} (hk : k ≤ op.precedence) (x : Operand) :
    ∃ o', Denotes k (ts ++ [.operator op, .operand x]) o' := by
  induction h with
  | operand k y => exact ⟨_, .binary hk (.operand _ y) (.operand _ x)⟩
  | @binary k op' ls rs l r hk' hl hr _ ihr =>
    -- The new operator takes the whole tree, or only its right operand if it binds more tightly.
    by_cases hop : op.precedence ≤ op'.precedence
    · exact ⟨_, .binary hk (.binary hop hl hr) (.operand _ x)⟩
    · obtain ⟨r', hr'⟩ := ihr (by omega)
      refine ⟨.binary op' l r', ?_⟩
      rw [List.append_assoc, List.cons_append]
      exact .binary hk' hl hr'

theorem Denotes.extend_tokens (h : Denotes 0 ts o) (op : BinaryOp) (o' : Operation) :
    ∃ o'', Denotes 0 (ts ++ .operator op :: o'.tokens) o'' := by
  induction o' generalizing ts o op with
  | operand x => exact h.extend (Nat.zero_le _) x
  | binary op' l r ihl ihr =>
    obtain ⟨m, hm⟩ := ihl h op
    obtain ⟨m', hm'⟩ := ihr hm op'
    rw [List.append_assoc] at hm'
    exact ⟨m', hm'⟩

theorem exists_denotes (o : Operation) : ∃ o', Denotes 0 o.tokens o' := by
  induction o with
  | operand x => exact ⟨_, .operand 0 x⟩
  | binary op l r ihl _ =>
    obtain ⟨m, hm⟩ := ihl
    exact hm.extend_tokens op r

theorem Denotes.le_root (h : Denotes k ts o) : ∀ p ∈ o.precedence?, k ≤ p := by
  cases h with
  | operand => simp [Operation.precedence?]
  | binary hk _ _ => simpa [Operation.precedence?] using hk

theorem Denotes.grouped (h : Denotes k ts o) : o.Grouped := by
  induction h with
  | operand => trivial
  | binary _ hl hr ihl ihr => exact ⟨hl.le_root, hr.le_root, ihl, ihr⟩

end Readings

end Print

namespace Operation

theorem Grouped.denotes {o : Operation} (h : o.Grouped) {k : Nat}
    (hk : ∀ p ∈ o.precedence?, k ≤ p) : Print.Denotes k o.tokens o := by
  induction o generalizing k with
  | operand x => exact .operand k x
  | binary op l r ihl ihr =>
    obtain ⟨hl, hr, hgl, hgr⟩ := h
    exact .binary (hk _ rfl) (ihl hgl hl) (ihr hgr hr)

end Operation

namespace Print

section Words

theorem blank_notMem_of_isIdentifier {w : List Char} (h : isIdentifier w = true) : ' ' ∉ w := by
  cases w with
  | nil => simp
  | cons c cs =>
    simp only [isIdentifier, Bool.and_eq_true, List.all_eq_true] at h
    intro hb
    rcases List.mem_cons.mp hb with rfl | hb
    · exact absurd h.1.1 (by decide)
    · exact absurd (h.2 _ hb) (by decide)

theorem toList_natural (n : Nat) : (toString n).toList = Nat.toDigits 10 n := by
  rw [Nat.toString_eq_repr, Nat.toList_repr]

theorem toList_negative (n : Nat) :
    (toString (Int.negSucc n)).toList = '-' :: Nat.toDigits 10 (n + 1) := by
  change ("-" ++ toString (n + 1)).toList = _
  rw [String.toList_append, toList_natural]
  rfl

theorem isDigit_of_mem_toDigits {n : Nat} : ∀ c ∈ Nat.toDigits 10 n, c.isDigit = true := fun _ =>
  Nat.isDigit_of_mem_toDigits (by decide) (by decide)

theorem digits?_toDigits (n : Nat) : digits? (Nat.toDigits 10 n) = some n := by
  rw [digits?, if_pos ⟨Nat.toDigits_ne_nil, List.all_eq_true.mpr isDigit_of_mem_toDigits⟩,
    Nat.ofDigitChars_ten_toDigits]

theorem blank_notMem_int (i : Int) : ' ' ∉ (toString i).toList := by
  have hdigits (n : Nat) : ' ' ∉ Nat.toDigits 10 n := fun h =>
    absurd (isDigit_of_mem_toDigits _ h) (by decide)
  cases i with
  | ofNat n =>
    change ' ' ∉ (toString n).toList
    rw [toList_natural]
    exact hdigits n
  | negSucc n =>
    rw [toList_negative, List.mem_cons, not_or]
    exact ⟨by decide, hdigits _⟩

theorem token?_int (i : Int) : token? (toString i).toList = some (.operand (.int i)) := by
  cases i with
  | ofNat n =>
    obtain ⟨d, ds, h⟩ := List.exists_cons_of_ne_nil (Nat.toDigits_ne_nil (n := n) (b := 10))
    have hd : d.isDigit = true := isDigit_of_mem_toDigits (n := n) d (by simp [h])
    have hname : isIdentifier (d :: ds) = false := by simp [isIdentifier, hd]
    have hnumber : number? (d :: ds) = (digits? (d :: ds)).map Int.ofNat := by
      rw [number?]
      intro _ heq
      cases heq
      contradiction
    change token? (toString n).toList = _
    rw [toList_natural, h, token?, hname, hnumber, ← h, digits?_toDigits]
    rfl
  | negSucc n =>
    have hname : isIdentifier ('-' :: Nat.toDigits 10 (n + 1)) = false := rfl
    rw [toList_negative, token?, hname, number?, digits?_toDigits]
    rfl

theorem token?_operator {op : BinaryOp} (h : op ≠ .concat) :
    token? op.symbol.toList = some (.operator op) := by
  cases op <;> first | contradiction | decide

theorem token?_name {x : String} (h : isIdentifier x.toList = true) :
    token? x.toList = some (.operand (.name x)) := by
  rw [token?, if_pos h, String.ofList_toList]

theorem tokens?_word {w : String} {t : Token} (hb : ' ' ∉ w.toList)
    (h : token? w.toList = some t) : tokens? w = some [t] := by
  rw [tokens?, List.splitOn_eq_singleton hb]
  simp [h]

theorem tokens?_append {s t : String} {ls rs : List Token} (hs : tokens? s = some ls)
    (ht : tokens? t = some rs) : tokens? (s ++ " " ++ t) = some (ls ++ rs) := by
  have hsplit : (s ++ " " ++ t).toList = s.toList ++ ' ' :: t.toList := by simp
  rw [tokens?] at hs ht
  rw [tokens?, hsplit, List.splitOn_append_cons_self, List.mapM_append, hs, ht]
  rfl

end Words

/-- The text of an operator tree has the tokens of the tree. -/
theorem tokens?_expr {e : Expr} {o : Operation} (h : e.operation? = some o)
    (hn : ∀ x ∈ o.names, isIdentifier x.toList = true) : tokens? (expr e) = some o.tokens := by
  fun_induction Expr.operation? e generalizing o with
  | case1 value s =>
    cases h
    exact tokens?_word (blank_notMem_int _) (token?_int _)
  | case2 x s =>
    cases h
    have hx := hn x List.mem_cons_self
    exact tokens?_word (blank_notMem_of_isIdentifier hx) (token?_name hx)
  | case3 => cases h
  | case4 op l r s hop ihl ihr =>
    obtain ⟨ol, hl, h⟩ := Option.bind_eq_some_iff.mp h
    obtain ⟨or, hr, rfl⟩ := Option.map_eq_some_iff.mp h
    obtain ⟨hnl, hnr⟩ := List.forall_mem_append.mp hn
    have hsymbol : tokens? op.symbol = some [.operator op] :=
      tokens?_word (by cases op <;> decide) (token?_operator hop)
    have htokens := tokens?_append (tokens?_append (ihl hl hnl) hsymbol) (ihr hr hnr)
    rw [List.append_assoc] at htokens
    exact htokens
  | case5 => cases h

theorem readsAs_expr_iff {e : Expr} {o t : Operation} (h : e.operation? = some o)
    (hn : ∀ x ∈ o.names, isIdentifier x.toList = true) :
    ReadsAs (expr e) t ↔ Denotes 0 o.tokens t := by
  rw [ReadsAs, tokens?_expr h hn]
  simp

/-- The text of an operator tree has one reading, which is the tree if and only if the tree is
grouped. -/
theorem operation_readsAs_iff_grouped {e : Expr} {o : Operation} (h : e.operation? = some o)
    (hn : ∀ x ∈ o.names, isIdentifier x.toList = true) :
    (∃! t, ReadsAs (expr e) t) ∧ (ReadsAs (expr e) o ↔ o.Grouped) := by
  simp only [readsAs_expr_iff h hn]
  obtain ⟨t, ht⟩ := exists_denotes o
  refine ⟨⟨t, ht, fun _ ht' => ht'.unique ht⟩, Denotes.grouped, fun hg => ?_⟩
  exact hg.denotes fun _ _ => Nat.zero_le _

def limitTest : Expr :=
  .operation .less (.operation .subtract (.localVar "stock")
    (.operation .multiply (.int 2 .synthetic) (.localVar "sold"))) (.int (-10) .synthetic)

theorem operation_readsAs_limitTest :
    ∃ o, limitTest.operation? = some o ∧ (∀ x ∈ o.names, isIdentifier x.toList = true) ∧
      (∃! t, ReadsAs (expr limitTest) t) ∧ (ReadsAs (expr limitTest) o ↔ o.Grouped) ∧
        o.Grouped := by
  have hn : ∀ x ∈ ["stock", "sold"], isIdentifier x.toList = true := by decide
  obtain ⟨hone, hiff⟩ := operation_readsAs_iff_grouped (e := limitTest) rfl hn
  refine ⟨_, rfl, hn, hone, hiff, ?_⟩
  simp [Operation.Grouped, Operation.precedence?, BinaryOp.precedence]

def productOfSum : Expr :=
  .operation .multiply (.operation .add (.int 1 .synthetic) (.int 2 .synthetic)) (.int 3 .synthetic)

theorem not_readsAs_productOfSum :
    ∃ o, productOfSum.operation? = some o ∧ o.names = [] ∧ ¬ ReadsAs (expr productOfSum) o := by
  refine ⟨_, rfl, rfl, fun h => ?_⟩
  have hg := ((readsAs_expr_iff (e := productOfSum) rfl (by decide)).mp h).grouped
  simp [Operation.Grouped, Operation.precedence?, BinaryOp.precedence] at hg

end Print

end ExplicitInit
