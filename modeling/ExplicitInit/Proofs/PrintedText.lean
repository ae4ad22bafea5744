import ExplicitInit.Print.Class
import ExplicitInit.Proofs.Parts
import ExplicitInit.Proofs.QuotedText
import Mathlib.Data.List.Basic
import Mathlib.Data.List.Forall2

namespace ExplicitInit

def FieldRef.labels (f : FieldRef) : List String :=
  [f.owner.name, f.name]

def Binding.labels : Binding → List String
  | .localVar => []
  | .field f => f.labels
  | .type t | .enclosing t => [t.name]

def Param.labels (p : Param) : List String :=
  [p.name, p.type]

inductive Constant where
  | literal (quote : Char) (units : List UInt16)
  | number (value : Nat)
deriving DecidableEq

namespace Constant

def isLiteral : Constant → Bool
  | literal .. => true
  | number _ => false

def ofChar (u : UInt16) : Constant :=
  if 0x20 ≤ u && u ≤ 0x7e then literal '\'' [u] else number u.toNat

end Constant

def Expr.constant? : Expr → Option Constant
  | .string units _ => some (.literal '"' units)
  | .char u _ => some (.ofChar u)
  | .formatString format _ _ => some (.literal '"' (Utf16.encode format))
  | _ => none

namespace Node

def labels : Node → List String
  | expr (.name x binding _) => x :: binding.toList.flatMap Binding.labels
  | expr (.fieldAccess _ f _) => f.labels
  | expr (.call _ selector _ method _) => selector :: method.toList.map fun m => m.owner.name
  | expr (.new type selector _ _ _) => [type.name, selector]
  | expr (.array type _ _) => [type]
  | expr (.allocate _ selector _ _) => [selector]
  | expr (.hook procedure _ _) => [procedure]
  | stmt (.declare x type _ _) => [x, type]
  | stmt (.invoke i) | stmt (.allocationGuard i _ _) => [i.selector]
  | stmt (.classGuard type _ _) => [type.name]
  | _ => []

def constant? : Node → Option Constant
  | expr e => e.constant?
  | stmt _ | block _ => none

/-- The parts of a node that its text shows; a static field is read without a receiver. -/
def shownParts : Node → List Node
  | expr (.fieldAccess r f _) => if f.isStatic then [] else [expr r]
  | n => n.parts

theorem mem_parts_of_mem_shownParts {n x : Node} (h : x ∈ n.shownParts) : x ∈ n.parts := by
  unfold shownParts at h
  split at h
  · split at h
    · cases h
    · exact h
  · exact h

def shown (n : Node) : List Node :=
  n :: (n.shownParts.attach.map fun x => shown x.1).flatten
termination_by sizeOf n
decreasing_by exact sizeOf_part (mem_parts_of_mem_shownParts x.2)

theorem shown_eq (n : Node) : n.shown = n :: n.shownParts.flatMap shown := by
  rw [shown, List.map_attach_eq_pmap, List.pmap_eq_map, List.flatMap_def]

def constants (n : Node) : List Constant :=
  n.shown.filterMap constant?

theorem constants_eq (n : Node) :
    n.constants = n.constant?.toList ++ n.shownParts.flatMap constants := by
  rw [constants, shown_eq, List.filterMap_cons, List.filterMap_flatMap]
  cases n.constant? <;> rfl

end Node

namespace Print

def Spelled (P : Char → Prop) (t : String) : Prop :=
  ∀ c ∈ t.toList, P c

theorem Spelled.append {P : Char → Prop} {s t : String} (hs : Spelled P s) (ht : Spelled P t) :
    Spelled P (s ++ t) := by
  intro c hc
  rw [String.toList_append] at hc
  exact (List.mem_append.mp hc).elim (hs c) (ht c)

end Print

/-- In all text fields of a tree other than string literals and formats, every character satisfies
a predicate. -/
def Node.IsSpelled (P : Char → Prop) (n : Node) : Prop :=
  ∀ x, n.Within x → ∀ label ∈ x.labels, Print.Spelled P label

theorem Node.IsSpelled.part {P : Char → Prop} {n x : Node} (h : n.IsSpelled P)
    (hx : x ∈ n.parts) : x.IsSpelled P :=
  fun y hy => h y (hy.of_part hx)

theorem Node.isSpelled_iff {P : Char → Prop} {n : Node} :
    n.IsSpelled P ↔ n.labels.Forall (Print.Spelled P) ∧ n.parts.Forall (IsSpelled P) := by
  rw [List.forall_iff_forall_mem, List.forall_iff_forall_mem]
  refine ⟨fun h => ⟨h n .root, fun x hx => h.part hx⟩, fun ⟨hn, hp⟩ x hx => ?_⟩
  rcases Node.within_iff.mp hx with rfl | ⟨p, hpn, hpx⟩
  · exact hn
  · exact hp p hpn x hpx

theorem Node.IsSpelled.own {P : Char → Prop} {n : Node} (h : n.IsSpelled P) {label : String}
    (hl : label ∈ n.labels) : Print.Spelled P label :=
  h n .root label hl

def Constructor.IsSpelled (P : Char → Prop) (k : Constructor) : Prop :=
  (∀ label ∈ k.selector :: k.params.flatMap Param.labels, Print.Spelled P label) ∧
    (Node.block k.body).IsSpelled P

def Method.IsSpelled (P : Char → Prop) (m : Method) : Prop :=
  (∀ label ∈ m.name :: m.returnType :: m.params.flatMap Param.labels, Print.Spelled P label) ∧
    (Node.block m.body).IsSpelled P

namespace Print

def isWordChar (c : Char) : Bool :=
  c.isAlphanum || c == '_' || c == '$'

def isCodeChar (c : Char) : Bool :=
  ' ' ≤ c && c ≤ '~' && c != '"' && c != '\'' && c != '\\'

/-- No word goes on from one text into the next. -/
def Apart (s t : String) : Prop :=
  ∀ a ∈ s.toList.getLast?, ∀ b ∈ t.toList.head?, (isWordChar a && isWordChar b) = false

/-- A text put together from code, whose characters all satisfy a predicate, and from the texts of
constants. -/
inductive Composed (P : Char → Prop) : String → List Constant → Prop
  | code {t : String} (h : Spelled P t) : Composed P t []
  | string (units : List UInt16) : Composed P (string units) [.literal '"' units]
  | char (u : UInt16) : Composed P (char u) [.ofChar u]
  | append {s t : String} {cs ds : List Constant} (hs : Composed P s cs) (ht : Composed P t ds)
      (h : Apart s t) : Composed P (s ++ t) (cs ++ ds)

def opensApart (t : String) : Bool :=
  t.toList.all isCodeChar && t.toList.head?.any (!isWordChar ·)

def closesApart (t : String) : Bool :=
  t.toList.all isCodeChar && t.toList.getLast?.any (!isWordChar ·)

section Composing

variable {P : Char → Prop} (hP : ∀ c, isCodeChar c = true → P c)

include hP

theorem spelled_of_code {t : String} (h : t.toList.all isCodeChar = true) : Spelled P t :=
  fun c hc => hP c (List.all_eq_true.mp h c hc)

theorem Composed.behind {s t : String} {cs : List Constant} (hs : closesApart s = true)
    (ht : Composed P t cs) : Composed P (s ++ t) cs := by
  obtain ⟨hcode, hlast⟩ := Bool.and_eq_true_iff.mp hs
  refine .append (.code (spelled_of_code hP hcode)) ht fun a ha b _ => ?_
  rw [Option.mem_def.mp ha, Option.any_some] at hlast
  rw [(Bool.not_eq_true' _).mp hlast, Bool.false_and]

theorem Composed.before {s t : String} {cs : List Constant} (hs : Composed P s cs)
    (ht : opensApart t = true) : Composed P (s ++ t) cs := by
  obtain ⟨hcode, hhead⟩ := Bool.and_eq_true_iff.mp ht
  have h := Composed.append hs (.code (spelled_of_code hP hcode)) fun a _ b hb => by
    rw [Option.mem_def.mp hb, Option.any_some] at hhead
    rw [(Bool.not_eq_true' _).mp hhead, Bool.and_false]
  rwa [List.append_nil] at h

theorem Composed.join {s t : String} {cs ds : List Constant} (hs : Composed P s cs)
    {code : String} (hopen : opensApart code = true) (hclose : closesApart code = true)
    (ht : Composed P t ds) : Composed P (s ++ code ++ t) (cs ++ ds) := by
  rw [String.append_assoc]
  obtain ⟨_, hhead⟩ := Bool.and_eq_true_iff.mp hopen
  refine .append hs (.behind hP hclose ht) fun a _ b hb => ?_
  cases hc : code.toList with
  | nil => simp [hc] at hhead
  | cons c cs =>
    rw [hc, List.head?_cons, Option.any_some] at hhead
    rw [String.toList_append, hc, List.cons_append, List.head?_cons] at hb
    obtain rfl := Option.some.inj hb
    rw [(Bool.not_eq_true' _).mp hhead, Bool.and_false]

theorem Composed.intercalate {sep : String} (hopen : opensApart sep = true)
    (hclose : closesApart sep = true) {ts : List String} {css : List (List Constant)}
    (h : List.Forall₂ (Composed P) ts css) :
    Composed P (String.intercalate sep ts) css.flatten := by
  induction h with
  | nil => exact .code (by simp [Spelled])
  | @cons t cs ts css ht hts ih =>
    cases hts with
    | nil => simpa using ht
    | cons _ _ =>
      rw [String.intercalate_cons_cons]
      exact .join hP ht hopen hclose ih

theorem Composed.labelled {ks args : List String} {css : List (List Constant)}
    (hk : ∀ k ∈ ks, Spelled P k) (h : List.Forall₂ (Composed P) args css) :
    List.Forall₂ (Composed P) (labelled ks args) css := by
  induction h generalizing ks with
  | nil => cases ks <;> exact .nil
  | cons ha _ ih =>
    cases ks with
    | nil => exact .cons (.behind hP rfl ha) (ih hk)
    | cons k ks =>
      obtain ⟨hk, hks⟩ := List.forall_mem_cons.mp hk
      exact .cons (.join hP (.code hk) rfl rfl ha) (ih hks)

omit hP in
theorem spelled_of_mem_keywordsFrom {part cs : List Char} (hp : ∀ c ∈ part, P c)
    (hc : ∀ c ∈ cs, P c) : ∀ k ∈ keywordsFrom part cs, Spelled P k := by
  have hpart {part : List Char} (h : ∀ c ∈ part, P c) :
      Spelled P (String.ofList part.reverse) := by
    intro c hc
    rw [String.toList_ofList] at hc
    exact h c (List.mem_reverse.mp hc)
  fun_induction keywordsFrom part cs with
  | case1 => simp
  | case2 part =>
    intro k hk
    obtain rfl := List.mem_singleton.mp hk
    exact hpart hp
  | case3 part cs ih =>
    exact List.forall_mem_cons.mpr ⟨hpart hp, ih (by simp) (List.forall_mem_cons.mp hc).2⟩
  | case4 part c cs _ ih =>
    obtain ⟨hc, hcs⟩ := List.forall_mem_cons.mp hc
    exact ih (List.forall_mem_cons.mpr ⟨hc, hp⟩) hcs

theorem Composed.filled {selector : String} {args : List String} {css : List (List Constant)}
    (hs : Spelled P selector) (h : List.Forall₂ (Composed P) args css) :
    Composed P (filled selector args) css.flatten := by
  unfold Print.filled
  split
  · cases h with
    | nil => exact .code hs
    | cons => contradiction
  · exact .intercalate hP rfl rfl
      (labelled hP (spelled_of_mem_keywordsFrom (by simp) hs) h)

theorem Composed.bracketed {receiver selector : String} {args : List String} {cs : List Constant}
    {css : List (List Constant)} (hr : Composed P receiver cs) (hs : Spelled P selector)
    (h : List.Forall₂ (Composed P) args css) :
    Composed P (bracketed receiver selector args) (cs ++ css.flatten) :=
  .before hP (.join hP (.behind hP rfl hr) rfl rfl (.filled hP hs h)) rfl

section Numbers

omit hP in
theorem isCodeChar_of_isDigit {c : Char} (h : c.isDigit = true) : isCodeChar c = true := by
  simp only [Char.isDigit, isCodeChar, Bool.and_eq_true, decide_eq_true_eq, Char.le_def,
    UInt32.le_iff_toNat_le, bne_iff_ne, ne_eq, Char.ext_iff, ← UInt32.toNat_inj] at *
  simp at *
  omega

theorem spelled_digits (n : Nat) : ∀ c ∈ Nat.toDigits 10 n, P c := fun _ hc =>
  hP _ (isCodeChar_of_isDigit (Nat.isDigit_of_mem_toDigits (by decide) (by decide) hc))

theorem spelled_nat (n : Nat) : Spelled P (toString n) := by
  rw [Nat.toString_eq_ofList_toDigits, Spelled, String.toList_ofList]
  exact spelled_digits hP n

theorem spelled_int (i : Int) : Spelled P (toString i) := by
  cases i with
  | ofNat n => exact spelled_nat hP n
  | negSucc n => exact .append (spelled_of_code hP rfl) (spelled_nat hP _)

theorem spelled_positional (d : Decimal) : Spelled P d.positional := by
  have hzero {n : Nat} : ∀ c ∈ List.replicate n '0', P c := fun c hc => by
    obtain rfl := List.eq_of_mem_replicate hc
    exact hP _ rfl
  unfold Decimal.positional Spelled
  split
  · rw [String.toList_ofList]
    exact List.forall_mem_append.mpr ⟨spelled_digits hP _, hzero⟩
  · have hpadded {n : Nat} : ∀ c ∈ List.replicate n '0' ++ Nat.toDigits 10 d.digits, P c :=
      List.forall_mem_append.mpr ⟨hzero, spelled_digits hP _⟩
    rw [String.toList_ofList]
    refine List.forall_mem_append.mpr ⟨fun c hc => hpadded c (List.mem_of_mem_take hc), ?_⟩
    exact List.forall_mem_cons.mpr ⟨hP _ rfl, fun c hc => hpadded c (List.mem_of_mem_drop hc)⟩

theorem spelled_float (x : Binary64) : Spelled P (float x) := by
  have hsize : Spelled P (if x.isInfinite then "inf" else if x.isZero then "0"
      else (Decimal.shortest x).positional) := by
    split
    · exact spelled_of_code hP rfl
    split
    · exact spelled_of_code hP rfl
    · exact spelled_positional hP _
  unfold float
  split
  · exact spelled_of_code hP rfl
  · change Spelled P (if x.isNegative then "-" ++ _ else _)
    split
    · exact .append (spelled_of_code hP rfl) hsize
    · exact hsize

theorem spelled_hex (u : UInt16) : ∀ c ∈ hex u, P c := by
  have hd : ∀ d < 16, isCodeChar d.digitChar = true := by decide
  exact forall_mem_hex (fun d h => hP _ (hd d h)) u

theorem composed_unitString (units : List UInt16) : Composed P (unitString units) [] := by
  have hnumbers : List.Forall₂ (Composed P)
      (units.map fun u => "(int) 0x" ++ String.ofList (hex u)) (units.map fun _ => []) := by
    rw [List.forall₂_map_left_iff, List.forall₂_map_right_iff]
    refine List.forall₂_same.mpr fun u _ => .code (.append (spelled_of_code hP rfl) ?_)
    rw [Spelled, String.toList_ofList]
    exact spelled_hex hP u
  have h : Composed P (unitString units) (_ ++ []) :=
    .before hP (.join hP (.behind hP rfl (.intercalate hP rfl rfl hnumbers)) rfl rfl
      (.code (spelled_nat hP units.length))) rfl
  simpa using h

end Numbers

section Exprs

def constantsEach (es : List Expr) : List (List Constant) :=
  es.map fun e => (Node.expr e).constants

omit hP in
theorem composed_of_parts {e : Expr} (es : List Expr)
    (hs : (Node.expr e).shownParts = es.map .expr) {cs : List Constant}
    (h : Composed P (expr e) cs) (hc : e.constant?.toList ++ (constantsEach es).flatten = cs) :
    Composed P (expr e) (Node.expr e).constants := by
  have hparts : (es.map Node.expr).flatMap Node.constants = (constantsEach es).flatten := by
    rw [List.flatMap_map, List.flatMap_def]
    rfl
  have hown : (Node.expr e).constant?.toList ++ (constantsEach es).flatten = cs := hc
  rwa [Node.constants_eq, hs, hparts, hown]

omit hP in
theorem composed_exprs {es : List Expr}
    (h : ∀ e ∈ es, Composed P (expr e) (Node.expr e).constants) :
    List.Forall₂ (Composed P) (exprs es) (constantsEach es) := by
  induction es with
  | nil => exact .nil
  | cons e es ih =>
    obtain ⟨he, hes⟩ := List.forall_mem_cons.mp h
    exact .cons he (ih hes)

theorem spelled_field {f : FieldRef} (h : ∀ label ∈ f.labels, Spelled P label) :
    Spelled P (field f) := by
  obtain ⟨howner, hname⟩ := List.forall_mem_cons.mp h
  have hname := hname _ List.mem_cons_self
  have hbar : Spelled P "_" := spelled_of_code hP rfl
  unfold field
  split
  · exact .append (.append (.append howner hbar) hname) hbar
  · exact .append hname hbar

omit hP in
theorem expr_fieldAccess (r : Expr) (f : FieldRef) (s : Span) :
    expr (.fieldAccess r f s) = field f ∧ (f.isStatic = true ∨ ∃ t, r = .self t) ∨
      expr (.fieldAccess r f s) = expr r ++ "->" ++ field f ∧ f.isStatic = false := by
  by_cases hr : ∃ t, r = .self t
  · obtain ⟨t, rfl⟩ := hr
    exact .inl ⟨rfl, .inr ⟨t, rfl⟩⟩
  have he : expr (.fieldAccess r f s) =
      if f.isStatic then field f else expr r ++ "->" ++ field f := by
    cases r with
    | self t => exact absurd ⟨t, rfl⟩ hr
    | _ => rfl
  cases hs : f.isStatic with
  | true => exact .inl ⟨he.trans (if_pos hs), .inl rfl⟩
  | false => exact .inr ⟨he.trans (if_neg (by simp [hs])), rfl⟩

theorem composed_fieldAccess {r : Expr} {f : FieldRef} {s : Span}
    (hf : ∀ label ∈ f.labels, Spelled P label)
    (hr : Composed P (expr r) (Node.expr r).constants) :
    Composed P (expr (.fieldAccess r f s)) (Node.expr (.fieldAccess r f s)).constants := by
  have hfield := Composed.code (spelled_field hP hf)
  have hstatic (h : f.isStatic = true) :
      (Node.expr (.fieldAccess r f s)).shownParts = [] := if_pos h
  have hinstance (h : f.isStatic = false) :
      (Node.expr (.fieldAccess r f s)).shownParts = [.expr r] := if_neg (by simp [h])
  rcases expr_fieldAccess r f s with ⟨he, hs⟩ | ⟨he, hs⟩
  · rw [← he] at hfield
    cases h : f.isStatic with
    | true => exact composed_of_parts [] (hstatic h) hfield rfl
    | false =>
      obtain ⟨t, rfl⟩ := hs.resolve_left (by simp [h])
      have hself : (Node.expr (.self t)).constants = [] := by
        rw [Node.constants_eq]
        rfl
      exact composed_of_parts [.self t] (hinstance h) hfield (by
        simp [constantsEach, Expr.constant?, hself])
  · have h : Composed P (expr r ++ "->" ++ field f) _ := .join hP hr rfl rfl hfield
    rw [← he] at h
    exact composed_of_parts [r] (hinstance hs) h (by simp [constantsEach, Expr.constant?])

theorem composed_expr (e : Expr) (h : (Node.expr e).IsSpelled P) :
    Composed P (expr e) (Node.expr e).constants := by
  suffices hall : ∀ n : Node, n.IsSpelled P → ∀ e, n = .expr e →
      Composed P (expr e) n.constants from hall _ h e rfl
  intro n
  induction n using Node.induction_on_parts with
  | h n ih =>
    rintro hn e rfl
    have hp {x : Expr} (hx : x ∈ e.parts) : Composed P (expr x) (Node.expr x).constants :=
      have hmem : Node.expr x ∈ (Node.expr e).parts := List.mem_map_of_mem hx
      ih _ hmem (hn.part hmem) x rfl
    cases e with
    | int value s => exact composed_of_parts [] rfl (.code (spelled_int hP _)) rfl
    | float value s => exact composed_of_parts [] rfl (.code (spelled_float hP _)) rfl
    | bool value s =>
      have ht : Spelled P (Print.bool value) := by cases value <;> exact spelled_of_code hP rfl
      exact composed_of_parts [] rfl (.code ht) rfl
    | char u s => exact composed_of_parts [] rfl (.char u) rfl
    | null s =>
      have ht : Spelled P "nil" := spelled_of_code hP rfl
      exact composed_of_parts [] rfl (.code ht) rfl
    | self s =>
      have ht : Spelled P "self" := spelled_of_code hP rfl
      exact composed_of_parts [] rfl (.code ht) rfl
    | string units s => exact composed_of_parts [] rfl (.string units) rfl
    | name x binding s =>
      have hx : Spelled P x := hn.own List.mem_cons_self
      rcases binding with _ | _ | f | _ | _
      case some.field =>
        have hf : ∀ label ∈ f.labels, Spelled P label := fun label hl =>
          hn.own (by simpa [Node.labels, Binding.labels] using .inr hl)
        exact composed_of_parts [] rfl (.code (spelled_field hP hf)) rfl
      all_goals exact composed_of_parts [] rfl (.code hx) rfl
    | fieldAccess r f s =>
      exact composed_fieldAccess hP (fun label hl => hn.own hl) (hp List.mem_cons_self)
    | assign l r s =>
      have hl := hp (x := l) (by simp [Expr.parts])
      have hr := hp (x := r) (by simp [Expr.parts])
      exact composed_of_parts [l, r] rfl (.join hP hl rfl rfl hr) (by
        simp [constantsEach, Expr.constant?])
    | binary op l r s =>
      have hl := hp (x := l) (by simp [Expr.parts])
      have hr := hp (x := r) (by simp [Expr.parts])
      have hop : Spelled P op.symbol := by cases op <;> exact spelled_of_code hP rfl
      exact composed_of_parts [l, r] rfl
        (.join hP (.join hP hl rfl rfl (.code hop)) rfl rfl hr) (by
          simp [constantsEach, Expr.constant?])
    | call receiver selector args method s =>
      have hs : Spelled P selector := hn.own List.mem_cons_self
      have ha := composed_exprs fun a ha => hp (x := a) (List.mem_append_right _ ha)
      cases receiver with
      | none =>
        have hm : Spelled P (implicitReceiver method) := by
          unfold implicitReceiver
          split
          · split
            · exact hn.own (by simp [Node.labels])
            · exact spelled_of_code hP rfl
          · exact spelled_of_code hP rfl
        exact composed_of_parts args rfl (.bracketed hP (.code hm) hs ha) rfl
      | some r =>
        exact composed_of_parts (r :: args) rfl (.bracketed hP (hp List.mem_cons_self) hs ha) rfl
    | new type selector args enclosing s =>
      have hs : Spelled P selector := hn.own (by simp [Node.labels])
      have ht : Spelled P ("[" ++ type.name ++ " alloc]") :=
        .append (.append (spelled_of_code hP rfl) (hn.own (by simp [Node.labels])))
          (spelled_of_code hP rfl)
      cases enclosing with
      | none =>
        exact composed_of_parts args rfl (.bracketed hP (.code ht) hs (composed_exprs fun _ => hp))
          rfl
      | some o =>
        exact composed_of_parts (o :: args) rfl
          (.bracketed hP (.code ht) hs (composed_exprs fun _ => hp)) rfl
    | array type elements s =>
      have ht : Spelled P type := hn.own List.mem_cons_self
      exact composed_of_parts elements rfl
        (.before hP (.join hP (.join hP (.behind hP rfl
          (.intercalate hP rfl rfl (composed_exprs fun _ => hp))) rfl rfl
            (.code (spelled_nat hP _))) rfl rfl (.code ht)) rfl) (by
          simp [Expr.constant?, Expr.parts])
    | allocate callee selector args s =>
      have hs : Spelled P selector := hn.own List.mem_cons_self
      have hc : Spelled P (Print.callee callee) := by cases callee <;> exact spelled_of_code hP rfl
      exact composed_of_parts args rfl
        (.bracketed hP (.code hc) hs (composed_exprs fun _ => hp)) rfl
    | hook procedure a s =>
      have hx : Spelled P procedure := hn.own List.mem_cons_self
      exact composed_of_parts [a] rfl
        (.before hP (.join hP (.code hx) rfl rfl (hp List.mem_cons_self)) rfl) (by
          simp [constantsEach, Expr.constant?])
    | unitString units s => exact composed_of_parts [] rfl (composed_unitString hP units) rfl
    | formatString format args s =>
      exact composed_of_parts args rfl
        (.before hP (.behind hP rfl (.intercalate hP rfl rfl
          (.cons (.string _) (composed_exprs fun _ => hp)))) rfl) rfl

end Exprs

end Composing

/-- How lines are put together at any depth: single lines, and lines one level deeper than the
braces that they are in. -/
inductive LaidOut (P : Char → Prop) : (Nat → List Line) → List Constant → Prop
  | nil : LaidOut P (fun _ => []) []
  | line {t : String} {cs : List Constant} (h : Composed P t cs) :
      LaidOut P (fun d => [⟨d, t ++ ";"⟩]) cs
  | braced {t : String} {inside : Nat → List Line} {cs ds : List Constant} (h : Composed P t cs)
      (hi : LaidOut P inside ds) : LaidOut P (fun d => braced d t (inside (d + 1))) (cs ++ ds)
  | append {before after : Nat → List Line} {cs ds : List Constant} (hb : LaidOut P before cs)
      (ha : LaidOut P after ds) : LaidOut P (fun d => before d ++ after d) (cs ++ ds)

section Layout

variable {P : Char → Prop}

theorem LaidOut.of_eq {f g : Nat → List Line} {cs ds : List Constant} (h : LaidOut P f cs)
    (hf : ∀ d, g d = f d) (hc : cs = ds) : LaidOut P g ds := by
  rwa [funext hf, ← hc]

theorem constants_stmt (s : Stmt) :
    (Node.stmt s).constants = s.parts.flatMap Node.constants :=
  Node.constants_eq _

theorem constants_block (b : Block) :
    (Node.block b).constants = b.statements.flatMap fun s => (Node.stmt s).constants :=
  (Node.constants_eq _).trans (List.flatMap_map ..)

def branch (depth : Nat) : Stmt → List Line
  | .block b => block depth b
  | s => stmt depth s

theorem stmt_ite (depth : Nat) (c : Expr) (t : Stmt) (s : Span) :
    stmt depth (.ite c t none s) =
      braced depth ("if (" ++ expr c ++ ") ") (branch (depth + 1) t) := by
  cases t <;> rfl

theorem stmt_iteElse (depth : Nat) (c : Expr) (t e : Stmt) (s : Span) :
    stmt depth (.ite c t (some e) s) =
      braced depth ("if (" ++ expr c ++ ") ") (branch (depth + 1) t) ++
        braced depth "else " (branch (depth + 1) e) := by
  cases t <;> cases e <;> rfl

theorem laidOut_branch {s : Stmt} (h : LaidOut P (stmt · s) (Node.stmt s).constants)
    (hb : ∀ b, s = .block b → LaidOut P (block · b) (Node.block b).constants) :
    LaidOut P (branch · s) (Node.stmt s).constants := by
  cases s with
  | block b =>
    refine (hb b rfl).of_eq (fun _ => rfl) ?_
    rw [constants_stmt, Stmt.parts, List.flatMap_singleton]
  | _ => exact h

theorem laidOut_stmts {ss : List Stmt}
    (h : ∀ s ∈ ss, LaidOut P (stmt · s) (Node.stmt s).constants) :
    LaidOut P (stmts · ss) (ss.flatMap fun s => (Node.stmt s).constants) := by
  induction ss with
  | nil => exact .nil
  | cons s ss ih =>
    obtain ⟨hs, hss⟩ := List.forall_mem_cons.mp h
    exact .append hs (ih hss)

variable (hP : ∀ c, isCodeChar c = true → P c)

include hP

theorem composed_invocation {i : Invocation} (hs : Spelled P i.selector)
    (h : ∀ a ∈ i.args, (Node.expr a).IsSpelled P) :
    Composed P (invocation i) (constantsEach i.args).flatten := by
  have hc : Spelled P (callee i.callee) := by
    cases i.callee <;> exact spelled_of_code hP rfl
  exact .bracketed hP (.code hc) hs (composed_exprs fun a ha => composed_expr hP a (h a ha))

/-- The lines of a statement show its constants in order. -/
theorem laidOut (n : Node) (h : n.IsSpelled P) :
    (∀ s, n = .stmt s → LaidOut P (stmt · s) n.constants) ∧
      ∀ b, n = .block b → LaidOut P (block · b) n.constants := by
  induction n using Node.induction_within with
  | h n ih =>
    have hexpr {e : Expr} (he : .expr e ∈ n.parts) : Composed P (expr e) (Node.expr e).constants :=
      composed_expr hP e (h.part he)
    have hblock {b : Block} (hb : .block b ∈ n.parts) :
        LaidOut P (block · b) (Node.block b).constants :=
      (ih _ hb _ .root (h.part hb)).2 b rfl
    have hbranch {t : Stmt} (ht : .stmt t ∈ n.parts) :
        LaidOut P (branch · t) (Node.stmt t).constants := by
      refine laidOut_branch ((ih _ ht _ .root (h.part ht)).1 t rfl) fun b hb => ?_
      -- The statements of a block that is a branch are two steps below the conditional.
      have hmem : Node.block b ∈ (Node.stmt t).parts := by simp [hb, Node.parts, Stmt.parts]
      exact (ih _ ht _ (.part .root hmem) ((h.part ht).part hmem)).2 b rfl
    refine ⟨?_, ?_⟩
    · rintro s rfl
      cases s with
      | expr e s =>
        refine (LaidOut.line (hexpr (e := e) (by simp [Node.parts, Stmt.parts]))).of_eq
          (fun _ => rfl) ?_
        simp [constants_stmt, Stmt.parts]
      | block b =>
        refine (LaidOut.braced (.code (spelled_of_code hP (t := "") rfl))
          (hblock (b := b) (by simp [Node.parts, Stmt.parts]))).of_eq (fun _ => rfl) ?_
        simp [constants_stmt, Stmt.parts]
      | declare x type e s =>
        have hx : Composed P (type ++ " " ++ x) ([] ++ []) :=
          .join hP (.code (h.own (by simp [Node.labels]))) rfl rfl
            (.code (h.own (by simp [Node.labels])))
        cases e with
        | none =>
          refine (LaidOut.line hx).of_eq (fun _ => rfl) ?_
          simp [constants_stmt, Stmt.parts]
        | some e =>
          have he := hexpr (e := e) (by simp [Node.parts, Stmt.parts])
          refine (LaidOut.line (.join hP hx rfl rfl he)).of_eq (fun _ => rfl) ?_
          simp [constants_stmt, Stmt.parts]
      | ite c t e s =>
        have hc : Composed P ("if (" ++ expr c ++ ") ") (Node.expr c).constants :=
          .before hP (.behind hP rfl (hexpr (by simp [Node.parts, Stmt.parts]))) rfl
        have ht := LaidOut.braced hc (hbranch (t := t) (by simp [Node.parts, Stmt.parts]))
        cases e with
        | none =>
          refine ht.of_eq (fun d => stmt_ite d c t s) ?_
          simp [constants_stmt, Stmt.parts]
        | some e =>
          have he := LaidOut.braced (.code (spelled_of_code hP (t := "else ") rfl))
            (hbranch (t := e) (by simp [Node.parts, Stmt.parts]))
          refine (LaidOut.append ht he).of_eq (fun d => stmt_iteElse d c t e s) ?_
          simp [constants_stmt, Stmt.parts]
      | ret e s =>
        cases e with
        | none =>
          refine (LaidOut.line (.code (spelled_of_code hP (t := "return") rfl))).of_eq
            (fun _ => rfl) ?_
          simp [constants_stmt, Stmt.parts]
        | some e =>
          have he : Composed P ("return " ++ expr e) (Node.expr e).constants :=
            .behind hP rfl (hexpr (by simp [Node.parts, Stmt.parts]))
          refine (LaidOut.line he).of_eq (fun _ => rfl) ?_
          simp [constants_stmt, Stmt.parts]
      | invoke i =>
        have hi := composed_invocation hP (h.own (by simp [Node.labels])) fun a ha =>
          h.part (x := .expr a) (List.mem_map_of_mem ha)
        refine (LaidOut.line hi).of_eq (fun _ => rfl) ?_
        rw [constants_stmt, Stmt.parts, List.flatMap_map, List.flatMap_def]
        rfl
      | allocationGuard i b s =>
        have hi := composed_invocation hP (i := i) (h.own (by simp [Node.labels])) fun a ha =>
          h.part (x := .expr a) (List.mem_append_left _ (List.mem_map_of_mem ha))
        have ht : Composed P (allocationTest i) _ := .before hP (.behind hP rfl hi) rfl
        refine (LaidOut.braced ht (hblock (b := b) (by simp [Node.parts, Stmt.parts]))).of_eq
          (fun _ => rfl) ?_
        rw [constants_stmt, Stmt.parts, List.flatMap_append, List.flatMap_map,
          List.flatMap_singleton, List.flatMap_def]
        rfl
      | classGuard type b s =>
        have ht : Composed P (classTest type) [] :=
          .before hP (.behind hP rfl (.code (h.own (by simp [Node.labels])))) rfl
        refine (LaidOut.braced ht (hblock (b := b) (by simp [Node.parts, Stmt.parts]))).of_eq
          (fun _ => rfl) ?_
        simp [constants_stmt, Stmt.parts]
    · rintro ⟨ss, span⟩ rfl
      have hs : ∀ s ∈ ss, LaidOut P (stmt · s) (Node.stmt s).constants := by
        intro s hs
        have hmem : Node.stmt s ∈ (Node.block ⟨ss, span⟩).parts := List.mem_map_of_mem hs
        exact (ih _ hmem _ .root (h.part hmem)).1 s rfl
      exact (laidOut_stmts hs).of_eq (fun _ => rfl) (constants_block ⟨ss, span⟩).symm

theorem laidOut_stmt {s : Stmt} (h : (Node.stmt s).IsSpelled P) :
    LaidOut P (stmt · s) (Node.stmt s).constants :=
  (laidOut hP _ h).1 s rfl

theorem laidOut_block {b : Block} (h : (Node.block b).IsSpelled P) :
    LaidOut P (block · b) (Node.block b).constants :=
  (laidOut hP _ h).2 b rfl

theorem composed_heading {selector : String} {params : List Param} (hs : Spelled P selector)
    (h : ∀ label ∈ params.flatMap Param.labels, Spelled P label) :
    Composed P (heading selector params) [] := by
  have hparams : List.Forall₂ (Composed P) (params.map param) (params.map fun _ => []) := by
    rw [List.forall₂_map_left_iff, List.forall₂_map_right_iff, List.forall₂_same]
    intro p hp
    have hlabel {label : String} (hl : label ∈ p.labels) : Spelled P label :=
      h label (List.mem_flatMap.mpr ⟨p, hp, hl⟩)
    exact .code (.append (.append (.append (spelled_of_code hP rfl)
      (hlabel (by simp [Param.labels]))) (spelled_of_code hP rfl))
        (hlabel (by simp [Param.labels])))
  have h : Composed P (heading selector params) _ := .filled hP hs hparams
  simpa using h

theorem laidOut_constructor {k : Constructor} (h : k.IsSpelled P) :
    LaidOut P (constructor · k) (Node.block k.body).constants := by
  obtain ⟨hs, hparams⟩ := List.forall_mem_cons.mp h.1
  have ht : Composed P ("- (id)" ++ heading k.selector k.params ++ " ") [] :=
    .before hP (.behind hP rfl (composed_heading hP hs hparams)) rfl
  exact .braced ht (laidOut_block hP h.2)

theorem laidOut_method {m : Method} (h : m.IsSpelled P) :
    LaidOut P (method · m) (Node.block m.body).constants := by
  obtain ⟨hname, hlabels⟩ := List.forall_mem_cons.mp h.1
  obtain ⟨htype, hparams⟩ := List.forall_mem_cons.mp hlabels
  have hsign : Composed P ((if m.isStatic then "+ (" else "- (") ++ m.returnType) [] := by
    split <;> exact .code (.append (spelled_of_code hP rfl) htype)
  have ht : Composed P ((if m.isStatic then "+ (" else "- (") ++ m.returnType ++ ")" ++
      heading m.name m.params ++ " ") [] :=
    .before hP (.join hP hsign rfl rfl (composed_heading hP hname hparams)) rfl
  exact .braced ht (laidOut_block hP h.2)

end Layout

end Print

end ExplicitInit
