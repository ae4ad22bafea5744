import ExplicitInit.Proofs.Hoisting
import ExplicitInit.Proofs.Incremental
import ExplicitInit.Proofs.Rejection
import Mathlib.Data.List.Induction

namespace ExplicitInit

inductive Edit where
  | push (member : Member)
  | insert (position : Nat) (member : Member)
  | normalize (options : Options)

def Member.isUnlowered : Member → Bool
  | .constructor k => !k.isLowered
  | .field _ | .block _ | .method _ => true

def Edit.isUnlowered : Edit → Bool
  | push m | insert _ m => m.isUnlowered
  | normalize _ => true

namespace Constructor

/-- The forms in which a run leaves constructors. -/
structure IsCanonical (k : Constructor) : Prop where
  role : k.role = some k.roleByBody
  designated : k.isDesignated = true → ∃ i guarded span n,
    k.body.statements =
        [.allocationGuard i guarded span, .returning (some (.self .synthetic))] ∧
      i.callee = .superclass ∧
      (∃ o : Options, guarded.statements.getLast? = some o.registration) ∧
      k.preambleLength = some n ∧ n < guarded.statements.length
  delegating : k.isDesignated = false → ∃ (o : Options) (i : Invocation), i.callee = .sibling ∧
    (k.body.statements = [.returning (some (o.hookCall i.toExpr))] ∨
      ∃ guarded span, guarded.statements ≠ [] ∧
        k.body.statements =
          [.allocationGuard i guarded span, .returning (some (o.hookCall (.self .synthetic)))])

theorem IsCanonical.isLowered {k : Constructor} (hk : k.IsCanonical) : k.isLowered = true := by
  cases hd : k.isDesignated with
  | true =>
    obtain ⟨i, guarded, span, n, hs, _⟩ := hk.designated hd
    exact Constructor.isLowered_of_guard hs
  | false =>
    obtain ⟨o, i, _, hs | ⟨guarded, span, _, hs⟩⟩ := hk.delegating hd
    · rw [Constructor.isLowered, hs]
      rfl
    · exact Constructor.isLowered_of_guard hs

theorem IsCanonical.boundary? {k : Constructor} (hk : k.IsCanonical)
    (hd : k.isDesignated = true) : k.boundary?.isSome = true := by
  obtain ⟨i, guarded, span, n, hs, _, _, hn, hlt⟩ := hk.designated hd
  have hle : n ≤ guarded.statements.length := by omega
  simp [Constructor.boundary?, guarded?, hs, hn, hle]

end Constructor

namespace ClassDecl

def edited (c : ClassDecl) : Edit → ClassDecl
  | .push m => c.push m
  | .insert i m => c.insertAt i m
  | .normalize o =>
    match c.normalize o with
    | .ok (c', _) => c'
    | .error _ => c

def after (c : ClassDecl) (edits : List Edit) : ClassDecl :=
  edits.foldl edited c

section Steps

variable {c : ClassDecl} {o : Options}

theorem after_append (c : ClassDecl) (earlier later : List Edit) :
    c.after (earlier ++ later) = (c.after earlier).after later :=
  List.foldl_append

theorem after_concat (c : ClassDecl) (edits : List Edit) (e : Edit) :
    c.after (edits ++ [e]) = (c.after edits).edited e :=
  after_append c edits [e]

theorem edited_normalize_of_accepted (h : c.fault? = none) :
    c.edited (.normalize o) = c.normalized o := by
  have hn : c.normalize o = .ok (c.normalized o, c.changes o) :=
    normalize_eq_ok_iff.mpr ⟨h, rfl, rfl⟩
  rw [edited, hn]

theorem edited_normalize_of_rejected {fault : Fault} (h : c.fault? = some fault) :
    c.edited (.normalize o) = c := by
  have hn : c.normalize o = .error fault := normalize_eq_error_iff.mpr h
  rw [edited, hn]

theorem header_edited (c : ClassDecl) (e : Edit) : (c.edited e).header = c.header := by
  cases e with
  | push m => rfl
  | insert i m => rfl
  | normalize o =>
    cases hf : c.fault? with
    | none => rw [edited_normalize_of_accepted hf, header_normalized]
    | some fault => rw [edited_normalize_of_rejected hf]

theorem header_after (c : ClassDecl) (edits : List Edit) : (c.after edits).header = c.header := by
  induction edits using List.reverseRecOn with
  | nil => rfl
  | append_singleton edits e ih => rw [after_concat, header_edited, ih]

theorem isInterface_after (c : ClassDecl) (edits : List Edit) :
    (c.after edits).isInterface = c.isInterface :=
  eq_of_header isInterface (fun _ => rfl) (header_after c edits)

theorem constructors_push (c : ClassDecl) (m : Member) :
    (c.push m).constructors = c.constructors ++ m.constructor?.toList := by
  rw [constructors, members_push, List.filterMap_append]
  cases m <;> rfl

theorem mem_constructors_insertAt {i : Nat} {m : Member} {k : Constructor}
    (hk : k ∈ (c.insertAt i m).constructors) : m = .constructor k ∨ k ∈ c.constructors := by
  obtain ⟨m', hm, he⟩ := List.mem_filterMap.mp hk
  rcases List.mem_append.mp hm with hm | hm
  · exact .inr (List.mem_filterMap.mpr ⟨m', List.mem_of_mem_take hm, he⟩)
  · rcases List.mem_cons.mp hm with rfl | hm
    · cases m' with
      | constructor k' => exact .inl (congrArg _ (Option.some.inj he))
      | _ => cases he
    · exact .inr (List.mem_filterMap.mpr ⟨m', List.mem_of_mem_drop hm, he⟩)

end Steps

section Canonical

variable {c : ClassDecl} {o : Options} {k : Constructor}

theorem mapStmts_eq_nil_iff {w : Rewriter Id} {ss : List Stmt} : w.mapStmts ss = [] ↔ ss = [] := by
  rw [Rewriter.mapStmts_eq_map, List.map_eq_nil_iff]

theorem isCanonical_source (h : c.HoistsInto o k (c.normalConstructor o k))
    (hl : k.isLowered = false) : (c.normalConstructor o k).IsCanonical := by
  refine ⟨by simp, fun hd => ?_, fun hd => ?_⟩
  · obtain ⟨hs, hn⟩ := h.designated (by simpa using hd) hl
    have hi : (k.ownInvocation?.getD (.toSuperclass o.defaultSelector [])).delegates = false :=
      Constructor.allocation_of_designated hl (by simpa using hd) o.defaultSelector
    refine ⟨_, _, _, _, hs, Invocation.delegates_eq_false_iff.mp hi, ⟨o, ?_⟩, hn, ?_⟩
    · rw [Block.ofList, Rewriter.mapStmts_append, Rewriter.mapStmts_registration,
        List.getLast?_concat]
    · simp only [Block.ofList, Rewriter.length_mapStmts, List.length_append, List.length_singleton]
      omega
  · obtain ⟨_, i, _, hdel, hs⟩ := h.delegating (by simpa using hd) hl
    have hcallee : (i.forwarding c.enclosingParam?).callee = .sibling := by
      rw [Constructor.forwarding_callee, Invocation.delegates_eq_true_iff.mp hdel]
    refine ⟨o, o.adjuster.mapInvocation (i.forwarding c.enclosingParam?), hcallee, ?_⟩
    by_cases hown : k.ownStatements = []
    · left
      rw [hs, if_pos hown, Rewriter.mapStmts_returning_hook, Rewriter.mapExpr_toExpr]
    · right
      refine ⟨.ofList (o.adjuster.mapStmts k.ownStatements), k.span, ?_, ?_⟩
      · exact fun hn => hown (mapStmts_eq_nil_iff.mp hn)
      · rw [hs, if_neg hown, Rewriter.mapStmts_cons, Rewriter.mapStmt_allocationGuard,
          Rewriter.mapBlock_eq, Rewriter.mapStmts_returning_hook, Rewriter.mapExpr_self]
        rfl

theorem getLast?_mapStmts_registration {w : Rewriter Id} [w.KeepsForm] {ss : List Stmt}
    {o : Options} (h : ss.getLast? = some o.registration) :
    (w.mapStmts ss).getLast? = some o.registration := by
  have hr : [w.mapStmt o.registration] = [o.registration] := Rewriter.mapStmts_registration o
  rw [Rewriter.mapStmts_eq_map, List.getLast?_map, h, Option.map_some, (List.cons.inj hr).1]

theorem mapStmts_returning_self {w : Rewriter Id} [w.KeepsForm] :
    w.mapStmts [.returning (some (.self .synthetic))] = [.returning (some (.self .synthetic))] := by
  simp [Stmt.returning]

theorem isCanonical_canonical (h : c.HoistsInto o k (c.normalConstructor o k))
    (hk : k.IsCanonical) : (c.normalConstructor o k).IsCanonical := by
  have hl := hk.isLowered
  refine ⟨by simp, fun hd => ?_, fun hd => ?_⟩
  · have hd : k.isDesignated = true := by simpa using hd
    obtain ⟨i, guarded, span, n, hs, hi, ⟨o', hr⟩, hn, hlt⟩ := hk.designated hd
    by_cases hnew : c.hoisted = []
    · obtain ⟨hs', hn'⟩ := h.unextended hl hnew
      refine ⟨o.adjuster.mapInvocation i, o.adjuster.mapBlock guarded, span, n, ?_, hi, ⟨o', ?_⟩,
        hn'.trans hn, ?_⟩
      · rw [hs', hs, Rewriter.mapStmts_cons, Rewriter.mapStmt_allocationGuard,
          mapStmts_returning_self]
      · rw [Rewriter.mapBlock_eq]
        exact getLast?_mapStmts_registration hr
      · rwa [Rewriter.mapBlock_eq, Rewriter.length_mapStmts]
    · obtain ⟨i', guarded', span', rest, n', hks, hkn, _, hs', hn'⟩ := h.extended hd hl hnew
      -- Both accounts are of one body and one length.
      obtain ⟨heq, rfl⟩ := List.cons.inj (hs.symm.trans hks)
      obtain ⟨rfl, rfl, rfl⟩ := Stmt.allocationGuard.inj heq
      obtain rfl := Option.some.inj (hn.symm.trans hkn)
      rw [mapStmts_returning_self] at hs'
      refine ⟨_, _, _, _, hs', hi, ⟨o', ?_⟩, hn', ?_⟩
      · apply getLast?_mapStmts_registration
        have hdrop : (guarded.statements.drop n).getLast? = some o'.registration := by
          rw [List.getLast?_drop, if_neg (by omega), hr]
        rw [List.getLast?_append, hdrop]
        rfl
      · simp only [Rewriter.length_mapStmts, List.length_append, List.length_take,
          List.length_drop]
        omega
  · have hd : k.isDesignated = false := by simpa using hd
    obtain ⟨hs', _⟩ := h.delegating_lowered hd hl
    obtain ⟨o', i, hi, hs | ⟨guarded, span, hne, hs⟩⟩ := hk.delegating hd
    · refine ⟨o', o.adjuster.mapInvocation i, hi, .inl ?_⟩
      rw [hs', hs, Rewriter.mapStmts_returning_hook, Rewriter.mapExpr_toExpr]
    · refine ⟨o', o.adjuster.mapInvocation i, hi, .inr ⟨o.adjuster.mapBlock guarded, span, ?_, ?_⟩⟩
      · rw [Rewriter.mapBlock_eq]
        exact fun hn => hne (mapStmts_eq_nil_iff.mp hn)
      · rw [hs', hs, Rewriter.mapStmts_cons, Rewriter.mapStmt_allocationGuard,
          Rewriter.mapStmts_returning_hook, Rewriter.mapExpr_self]

theorem isCanonical_normalConstructor (hc : c.isInterface = false) (hb : c.boundaryFault? = none)
    (hk : k ∈ (c.withImplicitConstructor o).constructors)
    (h : k.isLowered = false ∨ k.IsCanonical) : (c.normalConstructor o k).IsCanonical := by
  have hh : c.HoistsInto o k (c.normalConstructor o k) := normalConstructor_hoistsInto hc hb hk
  rcases h with hl | hk
  · exact isCanonical_source hh hl
  · exact isCanonical_canonical hh hk

end Canonical

/-- Each constructor is in source form or as some run left it. -/
def IsTraced (c : ClassDecl) : Prop :=
  ∀ k ∈ c.constructors, k.isLowered = false ∨ k.IsCanonical

section Runs

variable {c : ClassDecl} {o : Options} {e : Edit}

theorem IsTraced.normalized (hc : c.isInterface = false) (h : c.IsTraced)
    (hb : c.boundaryFault? = none) : ∀ k ∈ (c.normalized o).constructors, k.IsCanonical := by
  rw [constructors_normalized o hc, List.forall_mem_map]
  intro k hk
  refine isCanonical_normalConstructor hc hb hk ?_
  rcases implicit_or_mem_constructors o hc hk with rfl | hm
  · exact .inl rfl
  · exact h k hm

theorem isLowered_of_isUnlowered {m : Member} (hm : m.isUnlowered = true) {k : Constructor}
    (hk : k ∈ m.constructor?.toList) : k.isLowered = false := by
  cases m with
  | constructor k' =>
    obtain rfl : k = k' := by simpa [Member.constructor?] using hk
    simpa [Member.isUnlowered] using hm
  | _ => cases hk

theorem IsTraced.edited (hc : c.isInterface = false) (h : c.IsTraced)
    (he : e.isUnlowered = true) : (c.edited e).IsTraced := by
  cases e with
  | push m =>
    intro k hk
    rw [ClassDecl.edited, constructors_push, List.mem_append] at hk
    rcases hk with hk | hk
    · exact h k hk
    · exact .inl (isLowered_of_isUnlowered he hk)
  | insert i m =>
    intro k hk
    rcases mem_constructors_insertAt hk with rfl | hk
    · exact .inl (isLowered_of_isUnlowered (m := .constructor k) he (List.mem_singleton_self k))
    · exact h k hk
  | normalize o =>
    cases hf : c.fault? with
    | none =>
      obtain ⟨_, _, hb, _⟩ := fault?_eq_none_iff.mp hf
      rw [edited_normalize_of_accepted hf]
      exact fun k hk => .inr (h.normalized hc hb k hk)
    | some fault =>
      rw [edited_normalize_of_rejected hf]
      exact h

theorem isTraced_after (hc : c.isInterface = false)
    (hk : ∀ k ∈ c.constructors, k.isLowered = false) {edits : List Edit}
    (he : ∀ e ∈ edits, e.isUnlowered = true) : (c.after edits).IsTraced := by
  induction edits using List.reverseRecOn with
  | nil => exact fun k hm => .inl (hk k hm)
  | append_singleton edits e ih =>
    rw [after_concat]
    refine IsTraced.edited ((isInterface_after c edits).trans hc) ?_ (he e (by simp))
    exact ih fun e hm => he e (List.mem_append_left _ hm)

theorem IsTraced.knowsBoundaries (h : c.IsTraced) : c.KnowsBoundaries := by
  intro k hk hl hd
  rcases h k hk with hn | hcanonical
  · rw [hl] at hn
    cases hn
  · exact hcanonical.boundary? hd

theorem fault?_ne_unknownBoundary (h : c.KnowsBoundaries) (owner selector : String) :
    c.fault? ≠ some (.unknownBoundary owner selector) := by
  intro hf
  rcases fault?_cases c with ⟨_, hf'⟩ | ⟨_, _, fault, hd, hf'⟩ | ⟨_, _, k, hk, _⟩ | ⟨_, _, _, hf'⟩
  · rw [hf] at hf'
    cases hf'
  · rw [hf] at hf'
    cases hf'
    cases hd
  · obtain ⟨_, before, later, hks, ⟨hl, hd, hn⟩, _⟩ := hk
    have hm : k ∈ c.constructors := by simp [hks]
    have hs := h k hm hl hd
    rw [hn] at hs
    cases hs
  · rw [hf] at hf'
    have hb := isBinding_of_mem_violations (List.mem_of_head? hf'.symm)
    cases hb

/-- Whatever comes into a class in source form between runs, each successful run leaves all
constructors in a canonical form, and no run misses the end of an earlier preamble. -/
theorem normalize_after_canonical (hc : c.kind = .ordinary)
    (hk : ∀ k ∈ c.constructors, k.isLowered = false) {edits : List Edit}
    (he : ∀ e ∈ edits, e.isUnlowered = true) (o : Options) :
    (∀ owner selector,
      (c.after edits).normalize o ≠ .error (.unknownBoundary owner selector)) ∧
      ∀ c' s, (c.after edits).normalize o = .ok (c', s) → ∀ k ∈ c'.constructors, k.IsCanonical := by
  have hi : c.isInterface = false := isInterface_eq_false_iff.mpr hc
  have ht : (c.after edits).IsTraced := isTraced_after hi hk he
  refine ⟨fun owner selector herr => ?_, fun c' s hok => ?_⟩
  · exact fault?_ne_unknownBoundary ht.knowsBoundaries owner selector
      (normalize_eq_error_iff.mp herr)
  · obtain ⟨hf, rfl, _⟩ := normalize_eq_ok_iff.mp hok
    obtain ⟨_, _, hb, _⟩ := fault?_eq_none_iff.mp hf
    exact ht.normalized ((isInterface_after c edits).trans hi) hb

end Runs

def ledger : ClassDecl where
  type := ⟨⟨1⟩, "Ledger"⟩
  kind := .ordinary
  superclass := none
  enclosing := []
  members := [
    .field { Field.ofName "total" "int" with initializer := some (.int 0 .synthetic) },
    .constructor (.ofBody "init" [] []),
    .constructor (.ofBody "initWithTotal:" [] [.toSibling "init" [], .ofExpr (.localVar "total")])]
  span := .synthetic

def ledgerEdits : List Edit :=
  [.normalize .standard,
    .insert 0 (.field { Field.ofName "owner" "String" with
      initializer := some (.string [0xD800] .synthetic) }),
    .push (.constructor (.ofBody "initTwice" [] [.toSibling "init" []])),
    .normalize ⟨"JreRetain", "setUp", "init", false⟩,
    .push (.block (.ofInstance [.ofExpr (.localVar "seen")]))]

theorem normalize_after_canonical_ledger :
    ledger.kind = .ordinary ∧ (∀ k ∈ ledger.constructors, k.isLowered = false) ∧
      (∀ e ∈ ledgerEdits, e.isUnlowered = true) ∧
      (∀ owner selector, (ledger.after ledgerEdits).normalize .standard ≠
        .error (.unknownBoundary owner selector)) ∧
      ∃ c' s, (ledger.after ledgerEdits).normalize .standard = .ok (c', s) ∧
        ∀ k ∈ c'.constructors, k.IsCanonical := by
  have hk : ∀ k ∈ ledger.constructors, k.isLowered = false := by decide
  have he : ∀ e ∈ ledgerEdits, e.isUnlowered = true := by decide
  obtain ⟨hfault, hcanonical⟩ := normalize_after_canonical (c := ledger) rfl hk he .standard
  have h : (ledger.after ledgerEdits).normalize .standard =
      .ok ((ledger.after ledgerEdits).normalized .standard,
        (ledger.after ledgerEdits).changes .standard) :=
    normalize_eq_ok_iff.mpr ⟨by decide +kernel, rfl, rfl⟩
  exact ⟨rfl, hk, he, hfault, _, _, h, hcanonical _ _ h⟩

end ClassDecl

end ExplicitInit
