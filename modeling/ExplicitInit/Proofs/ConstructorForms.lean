import ExplicitInit.Proofs.Phases

namespace ExplicitInit

namespace Options

def hookCall (o : Options) (argument : Expr) : Expr :=
  .hook o.memoryHook argument .synthetic

def registration (o : Options) : Stmt :=
  .expr (o.hookCall (.self .synthetic)) .synthetic

end Options

namespace Rewriter

variable {w : Rewriter Id} [w.KeepsForm]

theorem mapStmts_registration (o : Options) : w.mapStmts [o.registration] = [o.registration] := by
  rw [mapStmts_cons, Options.registration, Options.hookCall, mapStmt_expr, mapExpr_hook,
    mapExpr_self]
  rfl

theorem mapStmts_returning_hook (o : Options) (e : Expr) :
    w.mapStmts [.returning (some (o.hookCall e))] =
      [.returning (some (o.hookCall (w.mapExpr e)))] := by
  rw [mapStmts_cons, Stmt.returning, mapStmt_ret, Option.map_some, Options.hookCall, mapExpr_hook]
  rfl

end Rewriter

namespace Invocation

theorem delegates_eq_true_iff {i : Invocation} : i.delegates = true ↔ i.callee = .sibling := by
  simp [delegates]

theorem delegates_eq_false_iff {i : Invocation} :
    i.delegates = false ↔ i.callee = .superclass := by
  unfold delegates
  cases i.callee <;> simp

end Invocation

namespace Stmt

/-- The invocation by which a statement of a lowered constructor allocates the instance. -/
def allocation? : Stmt → Option Invocation
  | .allocationGuard i _ _ => some i
  | .ret (some (.hook _ (.allocate callee selector args span) _)) _ =>
    some ⟨callee, selector, args, span⟩
  | _ => none

theorem allocation?_of_not_guard {s : Stmt} (h : ∀ i b span, s ≠ .allocationGuard i b span) :
    s.allocation? = s.returnedInvocation? := by
  cases s with
  | allocationGuard i b span => exact (h i b span rfl).elim
  | ret e span =>
    cases e with
    | none => rfl
    | some e =>
      cases e with
      | hook procedure a hookSpan => cases a <;> rfl
      | _ => rfl
  | _ => rfl

end Stmt

namespace Constructor

/-- The invocation that a source constructor writes out, at the start of its body. -/
def ownInvocation? (k : Constructor) : Option Invocation :=
  match k.body.statements with
  | .invoke i :: _ => some i
  | _ => none

def ownStatements (k : Constructor) : List Stmt :=
  match k.body.statements with
  | .invoke _ :: own => own
  | own => own

section Opening

variable {k : Constructor} {i : Invocation} {own : List Stmt}

theorem ownInvocation?_of_invoke (h : k.body.statements = .invoke i :: own) :
    k.ownInvocation? = some i := by
  simp [ownInvocation?, h]

theorem ownStatements_of_invoke (h : k.body.statements = .invoke i :: own) :
    k.ownStatements = own := by
  simp [ownStatements, h]

theorem statements_of_ownInvocation? (h : k.ownInvocation? = some i) :
    k.body.statements = .invoke i :: k.ownStatements := by
  unfold ownInvocation? at h
  split at h
  · rename_i hs
    cases Option.some.inj h
    rw [hs, ownStatements_of_invoke hs]
  · cases h

theorem ownInvocation?_eq_none_iff :
    k.ownInvocation? = none ↔ ∀ i own, k.body.statements ≠ .invoke i :: own := by
  constructor
  · intro h i own hs
    rw [ownInvocation?_of_invoke hs] at h
    cases h
  · intro h
    unfold ownInvocation?
    split
    · rename_i hs
      exact (h _ _ hs).elim
    · rfl

theorem ownStatements_of_none (h : k.ownInvocation? = none) :
    k.ownStatements = k.body.statements := by
  unfold ownStatements
  split
  · rename_i hs
    exact (ownInvocation?_eq_none_iff.mp h _ _ hs).elim
  · rfl

theorem splitInvocation_statements (k : Constructor) :
    splitInvocation k.body.statements = (k.ownInvocation?, k.ownStatements) := by
  cases h : k.ownInvocation? with
  | some i => rw [statements_of_ownInvocation? h]; rfl
  | none =>
    rw [ownStatements_of_none h]
    unfold splitInvocation
    split
    · rename_i hs
      exact (ownInvocation?_eq_none_iff.mp h _ _ hs).elim
    · rfl

end Opening

theorem opening?_of_invoke {k : Constructor} {i : Invocation} {own : List Stmt}
    (h : k.body.statements = .invoke i :: own) : k.opening? = some i := by
  rw [opening?, h]

theorem opening?_of_guard {k : Constructor} {i : Invocation} {body : Block} {span : Span}
    {rest : List Stmt} (h : k.body.statements = .allocationGuard i body span :: rest) :
    k.opening? = some i := by
  rw [opening?, h]

theorem isLowered_of_invoke {k : Constructor} {i : Invocation} {own : List Stmt}
    (h : k.body.statements = .invoke i :: own) : k.isLowered = false := by
  rw [isLowered, h]
  rfl

theorem isLowered_of_guard {k : Constructor} {i : Invocation} {body : Block} {span : Span}
    {rest : List Stmt} (h : k.body.statements = .allocationGuard i body span :: rest) :
    k.isLowered = true := by
  rw [isLowered, h]

theorem isLowered_eq_false_iff {k : Constructor} :
    k.isLowered = false ↔ ∀ s ∈ k.body.statements.head?, s.allocation? = none := by
  unfold isLowered
  split
  · rename_i i b span rest hs
    simp [hs, Stmt.allocation?]
  · rename_i s rest hg hs
    simp [hs, Stmt.allocation?_of_not_guard hg]
  · rename_i hs
    simp [hs]

theorem eq_of_isLowered {k : Constructor} (h : k.isLowered = true) :
    ∃ i, k.opening? = some i ∧
      ((∃ body span rest, k.body.statements = .allocationGuard i body span :: rest) ∨
        ∃ procedure hookSpan span rest,
          k.body.statements = .ret (some (.hook procedure i.toExpr hookSpan)) span :: rest) := by
  unfold isLowered at h
  split at h
  · rename_i i body span rest hs
    exact ⟨i, by simp [opening?, hs], .inl ⟨body, span, rest, hs⟩⟩
  · rename_i s rest _ hs
    obtain ⟨i, hi⟩ := Option.isSome_iff_exists.mp h
    obtain ⟨procedure, hookSpan, span, rfl⟩ := Stmt.returnedInvocation?_eq_some_iff.mp hi
    exact ⟨i, by simpa [opening?, hs] using hi, .inr ⟨procedure, hookSpan, span, rest, hs⟩⟩
  · cases h

theorem opening?_of_source {k : Constructor} (h : k.isLowered = false) :
    k.opening? = k.ownInvocation? := by
  unfold opening? ownInvocation?
  unfold isLowered at h
  split at h
  · simp at h
  · rename_i s rest hg hb
    rw [hb]
    cases s with
    | allocationGuard i b s => exact (hg i b s rfl).elim
    | ret e s => simpa using h
    | _ => rfl
  · rename_i hb
    rw [hb]

theorem isDesignated_of_opening? {k : Constructor} {i : Invocation} (ho : k.opening? = some i) :
    k.isDesignated = !i.delegates := by
  cases hi : i.delegates <;> simp [isDesignated, sibling?, ho, hi]

theorem isDesignated_of_superclass {k : Constructor} {i : Invocation} (ho : k.opening? = some i)
    (hi : i.callee = .superclass) : k.isDesignated = true := by
  have hd : i.delegates = false := Invocation.delegates_eq_false_iff.mpr hi
  rw [isDesignated_of_opening? ho, hd, Bool.not_false]

theorem isDesignated_of_sibling {k : Constructor} {i : Invocation} (ho : k.opening? = some i)
    (hi : i.callee = .sibling) : k.isDesignated = false := by
  have hd : i.delegates = true := Invocation.delegates_eq_true_iff.mpr hi
  rw [isDesignated_of_opening? ho, hd, Bool.not_true]

theorem isDesignated_iff {k : Constructor} :
    k.isDesignated = true ↔ ∀ i, k.opening? = some i → i.delegates = false := by
  unfold isDesignated sibling?
  cases k.opening? with
  | none => simp
  | some i => cases hi : i.delegates <;> simp [hi]

theorem isDesignated_eq_false_iff {k : Constructor} :
    k.isDesignated = false ↔ ∃ i, k.opening? = some i ∧ i.delegates = true := by
  unfold isDesignated sibling?
  cases k.opening? with
  | none => simp
  | some i => cases hi : i.delegates <;> simp [hi]

theorem sibling?_eq_some_iff {k : Constructor} {selector : String} :
    k.sibling? = some selector ↔
      ∃ i, k.opening? = some i ∧ i.delegates = true ∧ i.selector = selector := by
  unfold sibling?
  cases k.opening? with
  | none => simp
  | some i => cases hi : i.delegates <;> simp [hi]

theorem isDesignated_congr {k k' : Constructor} (h : k'.sibling? = k.sibling?) :
    k'.isDesignated = k.isDesignated := by
  simp [isDesignated, h]

theorem roleByBody_congr {k k' : Constructor} (h : k'.sibling? = k.sibling?) :
    k'.roleByBody = k.roleByBody := by
  simp [roleByBody, isDesignated_congr h]

theorem roleByBody_of_designated {k : Constructor} (h : k.isDesignated = true) :
    k.roleByBody = .designated := by
  simp [roleByBody, h]

theorem roleByBody_of_delegating {k : Constructor} (h : k.isDesignated = false) :
    k.roleByBody = .delegating := by
  simp [roleByBody, h]

theorem sibling?_congr {k k' : Constructor} {i i' : Invocation} (h : k.opening? = some i)
    (h' : k'.opening? = some i') (hc : i'.callee = i.callee) (hs : i'.selector = i.selector) :
    k'.sibling? = k.sibling? := by
  simp [sibling?, h, h', Invocation.delegates, hc, hs]

theorem forwarding_callee (i : Invocation) (p : Option Param) :
    (i.forwarding p).callee = i.callee := by
  unfold Invocation.forwarding
  split
  · rfl
  · split <;> rfl

theorem forwarding_selector (i : Invocation) (p : Option Param) :
    (i.forwarding p).selector = i.selector := by
  unfold Invocation.forwarding
  split
  · rfl
  · split <;> rfl

theorem withEnclosingParam_eq (k : Constructor) (p : Option Param) :
    k.withEnclosingParam p = { k with params := (k.withEnclosingParam p).params } := by
  unfold withEnclosingParam
  split
  · rfl
  · split <;> rfl

theorem withEnclosingParam_body (k : Constructor) (p : Option Param) :
    (k.withEnclosingParam p).body = k.body := by
  rw [withEnclosingParam_eq]

theorem withEnclosingParam_span (k : Constructor) (p : Option Param) :
    (k.withEnclosingParam p).span = k.span := by
  rw [withEnclosingParam_eq]

theorem withEnclosingParam_role (k : Constructor) (p : Option Param) :
    (k.withEnclosingParam p).role = k.role := by
  rw [withEnclosingParam_eq]

theorem withEnclosingParam_preambleLength (k : Constructor) (p : Option Param) :
    (k.withEnclosingParam p).preambleLength = k.preambleLength := by
  rw [withEnclosingParam_eq]

theorem ownInvocation?_callee {k : Constructor} (h : k.isLowered = false)
    (hd : k.isDesignated = true) {i : Invocation} (hi : k.ownInvocation? = some i) :
    i.callee = .superclass :=
  Invocation.delegates_eq_false_iff.mp
    (isDesignated_iff.mp hd i ((opening?_of_source h).trans hi))

theorem allocation_of_designated {k : Constructor} (h : k.isLowered = false)
    (hd : k.isDesignated = true) (selector : String) :
    (k.ownInvocation?.getD (.toSuperclass selector [])).delegates = false := by
  cases hi : k.ownInvocation? with
  | none => rfl
  | some i => exact Invocation.delegates_eq_false_iff.mpr (ownInvocation?_callee h hd hi)

theorem exists_ownInvocation {k : Constructor} (h : k.isLowered = false)
    (hd : k.isDesignated = false) : ∃ i, k.ownInvocation? = some i ∧ i.delegates = true := by
  rw [← opening?_of_source h]
  exact isDesignated_eq_false_iff.mp hd

section Lowered

variable (x : LoweringContext) {k : Constructor}

theorem lower_designated_eq (h : k.isLowered = false) :
    k.lower x .designated =
      { (k.withEnclosingParam x.enclosingParam).withStatements
          [.allocationGuard (k.ownInvocation?.getD (.toSuperclass x.options.defaultSelector []))
            (.ofList (x.preamble ++ k.ownStatements ++ [x.options.registration])) k.span,
            .returning (some (.self .synthetic))] with
        preambleLength := some x.preamble.length } := by
  simp only [lower, h, Bool.false_eq_true, ↓reduceIte, designatedForm, withEnclosingParam_body,
    withEnclosingParam_span, splitInvocation_statements]
  rfl

theorem lower_designated_source (h : k.isLowered = false) :
    (k.lower x .designated).body.statements =
      [.allocationGuard (k.ownInvocation?.getD (.toSuperclass x.options.defaultSelector []))
        (.ofList (x.preamble ++ k.ownStatements ++ [x.options.registration])) k.span,
        .returning (some (.self .synthetic))] := by
  rw [lower_designated_eq x h]
  rfl

theorem lower_designated_preambleLength (h : k.isLowered = false) :
    (k.lower x .designated).preambleLength = some x.preamble.length := by
  rw [lower_designated_eq x h]

theorem lower_designated_boundary? (h : k.isLowered = false) :
    (k.lower x .designated).boundary? = some x.preamble.length := by
  simp only [lower, h, Bool.false_eq_true, ↓reduceIte]
  exact designatedForm_boundary? x _

theorem lower_delegating_bare (h : k.isLowered = false) {i : Invocation}
    (hi : k.ownInvocation? = some i) (hs : k.ownStatements = []) :
    (k.lower x .delegating).body.statements =
      [.returning (some (x.options.hookCall (i.forwarding x.enclosingParam).toExpr))] := by
  have hsplit : splitInvocation k.body.statements = (some i, []) := by
    rw [splitInvocation_statements, hi, hs]
  simp only [lower, h, Bool.false_eq_true, ↓reduceIte, delegatingForm, withEnclosingParam_body,
    hsplit]
  rfl

theorem lower_delegating_guarded (h : k.isLowered = false) {i : Invocation}
    (hi : k.ownInvocation? = some i) (hs : k.ownStatements ≠ []) :
    (k.lower x .delegating).body.statements =
      [.allocationGuard (i.forwarding x.enclosingParam) (.ofList k.ownStatements) k.span,
        .returning (some (x.options.hookCall (.self .synthetic)))] := by
  have hsplit : splitInvocation k.body.statements = (some i, k.ownStatements) := by
    rw [splitInvocation_statements, hi]
  simp only [lower, h, Bool.false_eq_true, ↓reduceIte, delegatingForm, withEnclosingParam_body,
    hsplit, withEnclosingParam_span]
  cases hk : k.ownStatements with
  | nil => exact (hs hk).elim
  | cons s rest => rfl

theorem lower_delegating_preambleLength :
    (k.lower x .delegating).preambleLength = k.preambleLength := by
  unfold lower
  dsimp only
  split
  · rfl
  · rw [← withEnclosingParam_preambleLength k x.enclosingParam]
    unfold delegatingForm
    split <;> rfl

theorem lower_designated_lowered (h : k.isLowered = true) :
    k.lower x .designated = k.extendPreamble x.hoisted := by
  simp [lower, h]

theorem lower_delegating_lowered (h : k.isLowered = true) : k.lower x .delegating = k := by
  simp [lower, h]

theorem extendPreamble_of_boundary {added : List Stmt} {i : Invocation} {body : Block} {span : Span}
    {rest : List Stmt} {n : Nat} (hs : k.body.statements = .allocationGuard i body span :: rest)
    (hb : k.boundary? = some n) :
    k.extendPreamble added =
      { k.withStatements (.allocationGuard i
          { body with
            statements := body.statements.take n ++ added ++ body.statements.drop n }
          span :: rest) with
        preambleLength := some (n + added.length) } := by
  simp [extendPreamble, hs, hb]

theorem extendPreamble_of_no_boundary {added : List Stmt} (hb : k.boundary? = none) :
    k.extendPreamble added = k := by
  unfold extendPreamble
  split
  · rename_i hn
    rw [hb] at hn
    cases hn
  · rfl

theorem boundary?_eq_some {n : Nat} (hb : k.boundary? = some n) :
    ∃ i body span rest, k.body.statements = .allocationGuard i body span :: rest ∧
      k.preambleLength = some n ∧ n ≤ body.statements.length := by
  unfold boundary? guarded? at hb
  split at hb
  · rename_i guarded hg
    split at hg
    · rename_i i body span rest hs
      cases Option.some.inj hg
      obtain ⟨hn, hle⟩ := Option.filter_eq_some_iff.mp hb
      exact ⟨i, body, span, rest, hs, hn, of_decide_eq_true hle⟩
    · simp at hg
  · simp at hb

end Lowered

theorem isLowered_lower (x : LoweringContext) (k : Constructor) :
    (k.lower x k.roleByBody).isLowered = true := by
  cases h : k.isLowered with
  | true =>
    cases hd : k.isDesignated with
    | true =>
      rw [roleByBody_of_designated hd, lower_designated_lowered x h]
      cases hb : k.boundary? with
      | none => rwa [extendPreamble_of_no_boundary hb]
      | some n =>
        obtain ⟨i, body, span, rest, hs, _⟩ := boundary?_eq_some hb
        rw [extendPreamble_of_boundary hs hb]
        rfl
    | false => rwa [roleByBody_of_delegating hd, lower_delegating_lowered x h]
  | false =>
    cases hd : k.isDesignated with
    | true =>
      rw [roleByBody_of_designated hd, isLowered, lower_designated_source x h]
    | false =>
      obtain ⟨i, hi, _⟩ := exists_ownInvocation h hd
      rw [roleByBody_of_delegating hd, isLowered]
      by_cases hs : k.ownStatements = []
      · rw [lower_delegating_bare x h hi hs]
        rfl
      · rw [lower_delegating_guarded x h hi hs]

/-- Lowering leaves a constructor its sibling, so chains of delegation stay as they are. -/
theorem sibling?_lower (x : LoweringContext) (k : Constructor) :
    (k.lower x k.roleByBody).sibling? = k.sibling? := by
  cases h : k.isLowered with
  | true =>
    cases hd : k.isDesignated with
    | true =>
      rw [roleByBody_of_designated hd, lower_designated_lowered x h]
      cases hb : k.boundary? with
      | none => rw [extendPreamble_of_no_boundary hb]
      | some n =>
        obtain ⟨i, body, span, rest, hs, _⟩ := boundary?_eq_some hb
        rw [extendPreamble_of_boundary hs hb]
        exact sibling?_congr (opening?_of_guard hs) rfl rfl rfl
    | false => rw [roleByBody_of_delegating hd, lower_delegating_lowered x h]
  | false =>
    cases hd : k.isDesignated with
    | true =>
      have hn : k.sibling? = none := by simpa [isDesignated] using hd
      have ho : (k.lower x .designated).opening? =
          some (k.ownInvocation?.getD (.toSuperclass x.options.defaultSelector [])) := by
        rw [opening?, lower_designated_source x h]
      have hi := allocation_of_designated h hd x.options.defaultSelector
      rw [roleByBody_of_designated hd, hn, sibling?, ho]
      simp [hi]
    | false =>
      obtain ⟨i, hi, _⟩ := exists_ownInvocation h hd
      have ho : (k.lower x .delegating).opening? = some (i.forwarding x.enclosingParam) := by
        rw [opening?]
        by_cases hs : k.ownStatements = []
        · rw [lower_delegating_bare x h hi hs]
          rfl
        · rw [lower_delegating_guarded x h hi hs]
      rw [roleByBody_of_delegating hd]
      exact sibling?_congr ((opening?_of_source h).trans hi) ho (forwarding_callee i _)
        (forwarding_selector i _)

section Adjusted

variable (o : Options) (k : Constructor)

@[simp] theorem adjusted_statements :
    (k.adjusted o.adjuster).body.statements = o.adjuster.mapStmts k.body.statements := by
  simp [adjusted, Rewriter.mapBlock_eq]

theorem opening?_adjusted :
    (k.adjusted o.adjuster).opening? = k.opening?.map o.adjuster.mapInvocation := by
  unfold opening?
  rw [adjusted_statements]
  cases k.body.statements with
  | nil => rfl
  | cons s rest =>
    rw [Rewriter.mapStmts_cons]
    cases s with
    | ret e span =>
      have hr := o.adjuster_returnedInvocation? (.ret e span)
      rw [Rewriter.mapStmt_ret] at hr ⊢
      exact hr
    | _ => simp [Stmt.returnedInvocation?]

@[simp] theorem isLowered_adjusted : (k.adjusted o.adjuster).isLowered = k.isLowered := by
  unfold isLowered
  rw [adjusted_statements]
  cases k.body.statements with
  | nil => rfl
  | cons s rest =>
    rw [Rewriter.mapStmts_cons]
    cases s with
    | ret e span =>
      have hr := congrArg Option.isSome (o.adjuster_returnedInvocation? (.ret e span))
      rw [Rewriter.mapStmt_ret] at hr ⊢
      simpa using hr
    | _ => simp [Stmt.returnedInvocation?]

@[simp] theorem sibling?_adjusted : (k.adjusted o.adjuster).sibling? = k.sibling? := by
  cases ho : k.opening? with
  | none => simp [sibling?, opening?_adjusted, ho]
  | some i =>
    have ha : (k.adjusted o.adjuster).opening? = some (o.adjuster.mapInvocation i) := by
      rw [opening?_adjusted, ho]
      rfl
    exact sibling?_congr ho ha rfl rfl

theorem guarded?_adjusted :
    (k.adjusted o.adjuster).guarded? = k.guarded?.map o.adjuster.mapStmts := by
  unfold guarded?
  rw [adjusted_statements]
  cases k.body.statements with
  | nil => rfl
  | cons s rest => cases s <;> simp [Rewriter.mapBlock_eq]

@[simp] theorem boundary?_adjusted : (k.adjusted o.adjuster).boundary? = k.boundary? := by
  unfold boundary?
  rw [guarded?_adjusted]
  cases k.guarded? with
  | none => rfl
  | some guarded => simp [adjusted]

end Adjusted

end Constructor

end ExplicitInit
