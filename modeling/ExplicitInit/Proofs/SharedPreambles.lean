import ExplicitInit.Proofs.Histories
import Mathlib.Data.List.Flatten

namespace ExplicitInit

def Constructor.preamble? (k : Constructor) : Option (List Stmt) :=
  match k.guarded?, k.preambleLength with
  | some guarded, some n => some (guarded.take n)
  | _, _ => none

/-- A successful run: how many constructors there were in the end, and the initializers that it
moved into them. -/
structure Round where
  constructors : Nat
  hoisted : List Stmt

/-- What the rounds moved that found a constructor in a position. -/
def hoistedSince (position : Nat) (rounds : List Round) : List Stmt :=
  (rounds.filter (position < ·.constructors)).flatMap Round.hoisted

/-- A step by which a class grows under fixed options: constructors come in source form and stand
behind those before. -/
def Edit.Grows (o : Options) : Edit → Prop
  | .push m => m.isUnlowered = true
  | .insert _ m => m.isDeclaration = true
  | .normalize o' => o' = o

section HoistedSince

variable {i j : Nat} {rounds : List Round}

theorem hoistedSince_cons (i : Nat) (r : Round) (rounds : List Round) :
    hoistedSince i (r :: rounds) =
      (if i < r.constructors then r.hoisted else []) ++ hoistedSince i rounds := by
  by_cases hi : i < r.constructors <;> simp [hoistedSince, hi]

theorem hoistedSince_concat {r : Round} (hi : i < r.constructors) :
    hoistedSince i (rounds ++ [r]) = hoistedSince i rounds ++ r.hoisted := by
  simp [hoistedSince, hi]

theorem hoistedSince_eq_nil (h : ∀ r ∈ rounds, r.constructors ≤ i) :
    hoistedSince i rounds = [] := by
  have hn : rounds.filter (i < ·.constructors) = [] := by
    rw [List.filter_eq_nil_iff]
    intro r hr
    have := h r hr
    simp only [decide_eq_true_eq]
    omega
  rw [hoistedSince, hn]
  rfl

theorem sublist_hoistedSince (h : i ≤ j) (rounds : List Round) :
    (hoistedSince j rounds).Sublist (hoistedSince i rounds) := by
  refine List.Sublist.flatMap (List.monotone_filter_right rounds fun r hr => ?_) _
  have hj : j < r.constructors := of_decide_eq_true hr
  exact decide_eq_true (by omega)

theorem length_hoistedSince_eq_iff (h : i ≤ j) :
    (hoistedSince j rounds).length = (hoistedSince i rounds).length ↔
      ∀ r ∈ rounds, i < r.constructors → r.constructors ≤ j → r.hoisted = [] := by
  induction rounds with
  | nil => simp [hoistedSince]
  | cons r rounds ih =>
    have hle := (sublist_hoistedSince h rounds).length_le
    rw [hoistedSince_cons, hoistedSince_cons, List.length_append, List.length_append,
      List.forall_mem_cons, ← ih]
    by_cases hi : i < r.constructors
    · by_cases hj : j < r.constructors
      · have hn : ¬r.constructors ≤ j := by omega
        simp [hi, hj, hn]
      · have hs : r.constructors ≤ j := by omega
        rw [if_pos hi, if_neg hj, ← List.length_eq_zero_iff]
        simp only [hi, hs, forall_const, List.length_nil]
        omega
    · have hj : ¬j < r.constructors := by omega
      simp [hi, hj]

theorem hoistedSince_eq_iff (h : i ≤ j) :
    hoistedSince i rounds = hoistedSince j rounds ↔
      ∀ r ∈ rounds, i < r.constructors → r.constructors ≤ j → r.hoisted = [] := by
  rw [← length_hoistedSince_eq_iff h, (sublist_hoistedSince h rounds).length_eq]
  exact eq_comm

end HoistedSince

namespace Constructor

variable {k k' : Constructor}

theorem preamble?_of_guard {i : Invocation} {body : Block} {span : Span} {rest : List Stmt}
    {n : Nat} (hs : k.body.statements = .allocationGuard i body span :: rest)
    (hn : k.preambleLength = some n) : k.preamble? = some (body.statements.take n) := by
  simp [preamble?, guarded?, hs, hn]

theorem preamble?_of_mapStmts {o : Options}
    (hs : k'.body.statements = o.adjuster.mapStmts k.body.statements)
    (hn : k'.preambleLength = k.preambleLength) :
    k'.preamble? = k.preamble?.map o.adjuster.mapStmts := by
  have hg : k'.guarded? = k.guarded?.map o.adjuster.mapStmts := by
    rw [← guarded?_adjusted, guarded?, hs, ← adjusted_statements]
    rfl
  rw [preamble?, hg, hn, preamble?]
  cases k.guarded? with
  | none => rfl
  | some guarded => cases k.preambleLength <;> simp

end Constructor

namespace ClassDecl

def round? (c : ClassDecl) : Edit → Option Round
  | .normalize o =>
    if c.fault?.isNone then some ⟨(c.withImplicitConstructor o).constructors.length, c.hoisted⟩
    else none
  | .push _ | .insert _ _ => none

theorem round?_of_accepted {c : ClassDecl} {o : Options} (h : c.fault? = none) :
    c.round? (.normalize o) =
      some ⟨(c.withImplicitConstructor o).constructors.length, c.hoisted⟩ := by
  simp [round?, h]

theorem round?_of_rejected {c : ClassDecl} {o : Options} {fault : Fault}
    (h : c.fault? = some fault) : c.round? (.normalize o) = none := by
  simp [round?, h]

def rounds (c : ClassDecl) : List Edit → List Round
  | [] => []
  | e :: edits => (c.round? e).toList ++ (c.edited e).rounds edits

theorem rounds_concat (c : ClassDecl) (edits : List Edit) (e : Edit) :
    c.rounds (edits ++ [e]) = c.rounds edits ++ ((c.after edits).round? e).toList := by
  induction edits generalizing c with
  | nil => simp [rounds, after]
  | cons e' edits ih =>
    rw [List.cons_append, rounds, rounds, ih, List.append_assoc]
    rfl

/-- How the preambles of a class account for the runs so far. -/
structure Accounts (o : Options) (assignment : List Stmt) (rounds : List Round) (c : ClassDecl) :
    Prop where
  source : ∀ i k, c.constructors[i]? = some k → k.isLowered = false →
    ∀ r ∈ rounds, r.constructors ≤ i
  lowered : ∀ i k, c.constructors[i]? = some k → k.isLowered = true → k.isDesignated = true →
    k.preamble? = some (o.adjuster.mapStmts (assignment ++ hoistedSince i rounds))
  bounded : ∀ r ∈ rounds, r.constructors ≤ c.constructors.length

section Accounts

variable {o : Options} {c : ClassDecl} {k : Constructor} {rounds : List Round}

theorem preamble?_normalConstructor_source (hh : c.HoistsInto o k (c.normalConstructor o k))
    (hd : k.isDesignated = true) (hl : k.isLowered = false) :
    (c.normalConstructor o k).preamble? =
      some (o.adjuster.mapStmts (c.enclosingAssignment ++ c.hoisted)) := by
  obtain ⟨hs, hn⟩ := hh.designated hd hl
  rw [Constructor.preamble?_of_guard hs hn, Block.ofList, ← Rewriter.mapStmts_take,
    List.append_assoc, List.take_left]

theorem preamble?_normalConstructor_extended (hh : c.HoistsInto o k (c.normalConstructor o k))
    (hd : k.isDesignated = true) (hl : k.isLowered = true) (hnew : c.hoisted ≠ [])
    {before : List Stmt} (hp : k.preamble? = some before) :
    (c.normalConstructor o k).preamble? = some (o.adjuster.mapStmts (before ++ c.hoisted)) := by
  obtain ⟨i, body, span, rest, n, hks, hkn, hle, hs, hn⟩ := hh.extended hd hl hnew
  rw [Constructor.preamble?_of_guard hks hkn] at hp
  obtain rfl := Option.some.inj hp
  have ht : (body.statements.take n ++ c.hoisted ++ body.statements.drop n).take
      (n + c.hoisted.length) = body.statements.take n ++ c.hoisted :=
    List.take_left' (by simp [hle])
  rw [Constructor.preamble?_of_guard hs hn, ← Rewriter.mapStmts_take, ht]

theorem preamble?_normalConstructor_lowered (hh : c.HoistsInto o k (c.normalConstructor o k))
    (hd : k.isDesignated = true) (hl : k.isLowered = true) {before : List Stmt}
    (hp : k.preamble? = some (o.adjuster.mapStmts before)) :
    (c.normalConstructor o k).preamble? = some (o.adjuster.mapStmts (before ++ c.hoisted)) := by
  by_cases hnew : c.hoisted = []
  · obtain ⟨hs, hn⟩ := hh.unextended hl hnew
    rw [Constructor.preamble?_of_mapStmts hs hn, hp, hnew, List.append_nil, Option.map_some,
      Options.adjuster_mapStmts_twice]
  · rw [preamble?_normalConstructor_extended hh hd hl hnew hp]
    simp

theorem accounts_source (hk : ∀ k ∈ c.constructors, k.isLowered = false) :
    c.Accounts o c.enclosingAssignment [] where
  source := by simp
  lowered i k hi hl _ := by
    rw [hk k (List.mem_of_getElem? hi)] at hl
    cases hl
  bounded := by simp

/-- Constructors that come in source form behind the others have missed all runs so far. -/
theorem Accounts.append {assignment : List Stmt} {d : ClassDecl} (ks : List Constructor)
    (h : c.Accounts o assignment rounds) (hks : ∀ k ∈ ks, k.isLowered = false)
    (hd : d.constructors = c.constructors ++ ks) : d.Accounts o assignment rounds := by
  have hold : ∀ i k, d.constructors[i]? = some k →
      c.constructors[i]? = some k ∨ (c.constructors.length ≤ i ∧ k.isLowered = false) := by
    intro i k hi
    rw [hd] at hi
    by_cases hlt : i < c.constructors.length
    · rw [List.getElem?_append_left hlt] at hi
      exact .inl hi
    · rw [List.getElem?_append_right (by omega)] at hi
      exact .inr ⟨by omega, hks k (List.mem_of_getElem? hi)⟩
  refine ⟨fun i k hi hl r hr => ?_, fun i k hi hl hdes => ?_, fun r hr => ?_⟩
  · rcases hold i k hi with hi | ⟨hle, _⟩
    · exact h.source i k hi hl r hr
    · exact Nat.le_trans (h.bounded r hr) hle
  · rcases hold i k hi with hi | ⟨_, hn⟩
    · exact h.lowered i k hi hl hdes
    · rw [hl] at hn
      cases hn
  · have := h.bounded r hr
    rw [hd, List.length_append]
    omega

theorem Accounts.congr {assignment : List Stmt} {d : ClassDecl}
    (h : c.Accounts o assignment rounds) (hd : d.constructors = c.constructors) :
    d.Accounts o assignment rounds :=
  h.append [] (by simp) (by rw [hd, List.append_nil])

theorem Accounts.withImplicitConstructor {assignment : List Stmt} (hc : c.isInterface = false)
    (h : c.Accounts o assignment rounds) :
    (c.withImplicitConstructor o).Accounts o assignment rounds := by
  have hd := constructors_withImplicitConstructor o hc
  by_cases hn : c.constructors = []
  · rw [if_pos hn] at hd
    refine h.append [.implicit o.defaultSelector] ?_ (by rw [hd, hn, List.nil_append])
    intro k hk
    obtain rfl := List.mem_singleton.mp hk
    rfl
  · rw [if_neg hn] at hd
    exact h.congr hd

theorem Accounts.normalized (hc : c.isInterface = false) (hb : c.boundaryFault? = none)
    (h : c.Accounts o c.enclosingAssignment rounds) :
    (c.normalized o).Accounts o c.enclosingAssignment
      (rounds ++ [⟨(c.withImplicitConstructor o).constructors.length, c.hoisted⟩]) := by
  have hd := h.withImplicitConstructor hc
  have hfrom : ∀ (i : Nat) (k' : Constructor), (c.normalized o).constructors[i]? = some k' →
      ∃ k, (c.withImplicitConstructor o).constructors[i]? = some k ∧
        c.normalConstructor o k = k' := by
    intro i k' hi
    rw [constructors_normalized o hc, List.getElem?_map] at hi
    exact Option.map_eq_some_iff.mp hi
  refine ⟨fun i k' hi hl => ?_, fun i k' hi _ hdes => ?_, fun r hr => ?_⟩
  · obtain ⟨k, _, rfl⟩ := hfrom i k' hi
    rw [normalConstructor_isLowered] at hl
    cases hl
  · obtain ⟨k, hki, rfl⟩ := hfrom i k' hi
    have hdes : k.isDesignated = true := by simpa using hdes
    have hlt : i < (c.withImplicitConstructor o).constructors.length :=
      (List.getElem?_eq_some_iff.mp hki).1
    have hh := normalConstructor_hoistsInto (o := o) hc hb (List.mem_of_getElem? hki)
    rw [hoistedSince_concat hlt, ← List.append_assoc]
    -- A constructor in source form has missed the earlier runs, so this run is its first.
    cases hl : k.isLowered with
    | true => exact preamble?_normalConstructor_lowered hh hdes hl (hd.lowered i k hki hl hdes)
    | false =>
      rw [hoistedSince_eq_nil (hd.source i k hki hl), List.append_nil]
      exact preamble?_normalConstructor_source hh hdes hl
  · rw [constructors_normalized o hc, List.length_map]
    rcases List.mem_append.mp hr with hr | hr
    · exact hd.bounded r hr
    · obtain rfl := List.mem_singleton.mp hr
      exact Nat.le_refl _

theorem constructors_insertAt_of_declaration {i : Nat} {m : Member}
    (hm : m.isDeclaration = true) : (c.insertAt i m).constructors = c.constructors := by
  have hn : m.constructor? = none := by cases m <;> first | rfl | cases hm
  rw [constructors_insertAt, hn, Option.toList_none, List.append_nil, ← List.filterMap_append,
    List.take_append_drop]
  rfl

theorem Accounts.edited {e : Edit} (hc : c.isInterface = false) (he : e.Grows o)
    (h : c.Accounts o c.enclosingAssignment rounds) :
    (c.edited e).Accounts o c.enclosingAssignment (rounds ++ (c.round? e).toList) := by
  cases e with
  | push m =>
    rw [round?, Option.toList_none, List.append_nil]
    exact h.append _ (fun k hk => isLowered_of_isUnlowered he hk) (constructors_push c m)
  | insert i m =>
    rw [round?, Option.toList_none, List.append_nil]
    exact h.congr (constructors_insertAt_of_declaration he)
  | normalize o' =>
    obtain rfl : o' = o := he
    cases hf : c.fault? with
    | none =>
      obtain ⟨_, _, hb, _⟩ := fault?_eq_none_iff.mp hf
      rw [edited_normalize_of_accepted hf, round?_of_accepted hf]
      exact h.normalized hc hb
    | some fault =>
      rw [edited_normalize_of_rejected hf, round?_of_rejected hf, Option.toList_none,
        List.append_nil]
      exact h

theorem enclosingAssignment_after (c : ClassDecl) (edits : List Edit) :
    (c.after edits).enclosingAssignment = c.enclosingAssignment :=
  eq_of_header enclosingAssignment (fun _ => rfl) (header_after c edits)

theorem accounts_after (hc : c.isInterface = false)
    (hk : ∀ k ∈ c.constructors, k.isLowered = false) {edits : List Edit}
    (he : ∀ e ∈ edits, e.Grows o) :
    (c.after edits).Accounts o c.enclosingAssignment (c.rounds edits) := by
  induction edits using List.reverseRecOn with
  | nil => exact accounts_source hk
  | append_singleton edits e ih =>
    have hc' : (c.after edits).isInterface = false := (isInterface_after c edits).trans hc
    have hstep := ih fun e hm => he e (List.mem_append_left _ hm)
    rw [← enclosingAssignment_after c edits] at hstep ⊢
    rw [after_concat, rounds_concat]
    exact hstep.edited hc' (he e (by simp))

theorem preamble?_normalized_after (hc : c.isInterface = false)
    (hk : ∀ k ∈ c.constructors, k.isLowered = false) {edits : List Edit}
    (he : ∀ e ∈ edits, e.Grows o) (hf : (c.after edits).fault? = none) {i : Nat}
    (hi : ((c.after edits).normalized o).constructors[i]? = some k) (hd : k.isDesignated = true) :
    k.preamble? = some (o.adjuster.mapStmts
      (c.enclosingAssignment ++ hoistedSince i (c.rounds (edits ++ [.normalize o])))) := by
  have ha : (c.after (edits ++ [.normalize o])).Accounts o c.enclosingAssignment
      (c.rounds (edits ++ [.normalize o])) := by
    refine accounts_after hc hk fun e hm => ?_
    rcases List.mem_append.mp hm with hm | hm
    · exact he e hm
    · obtain rfl := List.mem_singleton.mp hm
      rfl
  rw [after_concat, edited_normalize_of_accepted hf] at ha
  have hm := List.mem_of_getElem? hi
  exact ha.lowered i k hi (isLowered_normalized o ((isInterface_after c edits).trans hc) hm) hd

/-- A designated constructor runs what the runs moved that found it. Two of them run the same
exactly if nothing was moved by a run that found the one and not yet the other. -/
theorem normalize_after_preambles (hc : c.kind = .ordinary)
    (hk : ∀ k ∈ c.constructors, k.isLowered = false) {edits : List Edit}
    (he : ∀ e ∈ edits, e.Grows o) {c' : ClassDecl} {s : Summary}
    (h : (c.after edits).normalize o = .ok (c', s)) :
    let rounds := c.rounds (edits ++ [.normalize o])
    (∀ i k, c'.constructors[i]? = some k → k.isDesignated = true →
      k.preamble? =
        some (o.adjuster.mapStmts (c.enclosingAssignment ++ hoistedSince i rounds))) ∧
    ∀ i j k₁ k₂, i ≤ j → c'.constructors[i]? = some k₁ → c'.constructors[j]? = some k₂ →
      k₁.isDesignated = true → k₂.isDesignated = true →
      (k₁.preamble? = k₂.preamble? ↔
        ∀ r ∈ rounds, i < r.constructors → r.constructors ≤ j → r.hoisted = []) := by
  intro rounds
  obtain ⟨hf, rfl, _⟩ := normalize_eq_ok_iff.mp h
  have hi : c.isInterface = false := isInterface_eq_false_iff.mpr hc
  refine ⟨fun i k hk' hd => preamble?_normalized_after hi hk he hf hk' hd, ?_⟩
  intro i j k₁ k₂ hij h₁ h₂ hd₁ hd₂
  rw [preamble?_normalized_after hi hk he hf h₁ hd₁, preamble?_normalized_after hi hk he hf h₂ hd₂,
    ← hoistedSince_eq_iff hij]
  constructor
  · intro heq
    have hlen := congrArg List.length (Option.some.inj heq)
    rw [Rewriter.length_mapStmts, Rewriter.length_mapStmts, List.length_append,
      List.length_append] at hlen
    exact ((sublist_hoistedSince hij _).length_eq.mp (Nat.add_left_cancel hlen).symm).symm
  · intro heq
    rw [heq]

end Accounts

def shelf : ClassDecl where
  type := ⟨⟨1⟩, "Shelf"⟩
  kind := .ordinary
  superclass := none
  enclosing := []
  members := [
    .field { Field.ofName "size" "int" with initializer := some (.int 0 .synthetic) },
    .constructor (.ofBody "init" [] [])]
  span := .synthetic

def shelfEdits : List Edit :=
  [.normalize .standard, .push (.constructor (.ofBody "initWithSize:" [] []))]

theorem grows_shelfEdits : ∀ e ∈ shelfEdits, e.Grows .standard := by
  simp [shelfEdits, Edit.Grows]
  rfl

theorem normalize_shelf : (shelf.after shelfEdits).normalize .standard =
    .ok ((shelf.after shelfEdits).normalized .standard,
      (shelf.after shelfEdits).changes .standard) :=
  normalize_eq_ok_iff.mpr ⟨by decide +kernel, rfl, rfl⟩

theorem normalize_after_preambles_shelf :
    shelf.kind = .ordinary ∧ (∀ k ∈ shelf.constructors, k.isLowered = false) ∧
      (∀ e ∈ shelfEdits, e.Grows .standard) ∧
      ∃ c' s, (shelf.after shelfEdits).normalize .standard = .ok (c', s) ∧
        let rounds := shelf.rounds (shelfEdits ++ [.normalize .standard])
        (∀ i k, c'.constructors[i]? = some k → k.isDesignated = true →
          k.preamble? = some (Options.standard.adjuster.mapStmts
            (shelf.enclosingAssignment ++ hoistedSince i rounds))) ∧
        ∀ i j k₁ k₂, i ≤ j → c'.constructors[i]? = some k₁ → c'.constructors[j]? = some k₂ →
          k₁.isDesignated = true → k₂.isDesignated = true →
          (k₁.preamble? = k₂.preamble? ↔
            ∀ r ∈ rounds, i < r.constructors → r.constructors ≤ j → r.hoisted = []) := by
  have hk : ∀ k ∈ shelf.constructors, k.isLowered = false := by decide
  exact ⟨rfl, hk, grows_shelfEdits, _, _, normalize_shelf,
    normalize_after_preambles rfl hk grows_shelfEdits normalize_shelf⟩

/-- The second constructor of the shelf never gives the field its value. -/
theorem not_shared_lateConstructor :
    shelf.kind = .ordinary ∧ (∀ k ∈ shelf.constructors, k.isLowered = false) ∧
      (∀ e ∈ shelfEdits, e.Grows .standard) ∧
      ∃ c' s k₁ k₂, (shelf.after shelfEdits).normalize .standard = .ok (c', s) ∧
        c'.constructors = [k₁, k₂] ∧ k₁.isDesignated = true ∧ k₂.isDesignated = true ∧
        k₁.preamble? ≠ k₂.preamble? := by
  have hk : ∀ k ∈ shelf.constructors, k.isLowered = false := by decide
  have hview : ((shelf.after shelfEdits).normalized .standard).constructors.map
      (fun k => (k.isDesignated, k.preamble?.map List.length)) =
        [(true, some 1), (true, some 0)] := by decide +kernel
  obtain ⟨k₁, later, hks, h₁, hlater⟩ := List.map_eq_cons_iff.mp hview
  obtain ⟨k₂, hk₂, h₂⟩ := List.map_eq_singleton_iff.mp hlater
  obtain ⟨hd₁, hp₁⟩ := Prod.mk.inj h₁
  obtain ⟨hd₂, hp₂⟩ := Prod.mk.inj h₂
  refine ⟨rfl, hk, grows_shelfEdits, _, _, k₁, k₂, normalize_shelf, by rw [hks, hk₂], hd₁, hd₂,
    fun heq => ?_⟩
  rw [heq, hp₂] at hp₁
  cases hp₁

end ClassDecl

end ExplicitInit
