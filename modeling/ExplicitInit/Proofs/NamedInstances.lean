import ExplicitInit.Proofs.ClassInitialization
import ExplicitInit.Proofs.EnclosingPaths
import ExplicitInit.Proofs.LiteralCounts
import ExplicitInit.Proofs.SharedPreambles
import ExplicitInit.Proofs.Violations

namespace ExplicitInit

def Expr.namesInstance : Expr → Bool
  | .name _ (some (.enclosing _)) _ => true
  | _ => false

theorem Expr.namesInstance_form (e : Expr) : e.form.namesInstance = e.namesInstance := by
  cases e <;> rfl

theorem Expr.namesInstance_eq_true {e : Expr} (h : e.namesInstance = true) :
    ∃ x type s, e = .name x (some (.enclosing type)) s := by
  cases e with
  | name x b s =>
    rcases b with _ | _ | _ | _ | type
    all_goals first | exact ⟨x, type, s, rfl⟩ | cases h
  | _ => cases h

/-- No name of an enclosing instance stands at any depth of some statements. -/
def NamesNoInstance (ss : List Stmt) : Prop :=
  ∀ e ∈ Stmt.nodesAll ss, e.namesInstance = false

theorem namesNoInstance_nil : NamesNoInstance [] :=
  fun _ h => nomatch h

theorem namesNoInstance_append {ss ts : List Stmt} :
    NamesNoInstance (ss ++ ts) ↔ NamesNoInstance ss ∧ NamesNoInstance ts := by
  unfold NamesNoInstance
  rw [Stmt.nodesAll_eq_flatMap, List.flatMap_append, ← Stmt.nodesAll_eq_flatMap,
    ← Stmt.nodesAll_eq_flatMap, List.forall_mem_append]

theorem namesNoInstance_iff_countP {ss : List Stmt} :
    NamesNoInstance ss ↔ (Stmt.nodesAll ss).countP Expr.namesInstance = 0 := by
  simp [NamesNoInstance, List.countP_eq_zero]

theorem namesNoInstance_adjusted_iff (o : Options) {ss : List Stmt} :
    NamesNoInstance (o.adjuster.mapStmts ss) ↔ NamesNoInstance ss := by
  unfold Options.adjuster
  split
  · have hcount := countP_respeller (P := Expr.namesInstance) (Q := Expr.namesInstance)
      (fun e e' _ hf => by rw [← Expr.namesInstance_form e', hf, Expr.namesInstance_form])
      (fun _ _ _ => rfl) (fun e ls hl => by
        rw [countP_nodes_formatOf ls e.span fun _ _ _ => rfl,
          countP_nodes_of_literals? hl fun _ _ _ => rfl]
        rfl) (.ofStmts ss)
    rw [Rewriter.mapNode_ofStmts] at hcount
    rw [namesNoInstance_iff_countP, namesNoInstance_iff_countP]
    exact iff_of_eq (congrArg (· = 0) hcount)
  · rw [identity_mapStmts]

section Guards

variable {type : TypeRef}

def Stmt.guardedFor? (type : TypeRef) : Stmt → Option (List Stmt)
  | .classGuard guarded body _ => if guarded.same type then some body.statements else none
  | _ => none

def lastGuarded (type : TypeRef) (ss : List Stmt) : List Stmt :=
  ((ss.filterMap (Stmt.guardedFor? type)).getLast?).getD []

theorem guardedFor?_eq_none_iff {s : Stmt} : s.guardedFor? type = none ↔ s.guards type = false := by
  cases s with
  | classGuard guarded body span =>
    by_cases hg : guarded.same type = true <;> simp [Stmt.guardedFor?, Stmt.guards, hg]
  | _ => simp [Stmt.guardedFor?, Stmt.guards]

theorem filterMap_guardedFor?_eq_nil {ss : List Stmt} (h : ∀ s ∈ ss, s.guards type = false) :
    ss.filterMap (Stmt.guardedFor? type) = [] :=
  List.filterMap_eq_nil_iff.mpr fun s hs => guardedFor?_eq_none_iff.mpr (h s hs)

theorem lastGuarded_of_last {earlier after : List Stmt} {s : Stmt} {guarded : List Stmt}
    (hs : s.guardedFor? type = some guarded) (ha : ∀ t ∈ after, t.guards type = false) :
    lastGuarded type (earlier ++ [s] ++ after) = guarded := by
  rw [lastGuarded, List.filterMap_append, List.filterMap_append, filterMap_guardedFor?_eq_nil ha,
    List.append_nil, List.filterMap_cons_some hs, List.filterMap_nil, List.getLast?_append,
    List.getLast?_singleton]
  rfl

theorem lastGuarded_withGuarded (added : List Stmt) (b : Block) :
    lastGuarded type (b.withGuarded type added).statements =
      lastGuarded type b.statements ++ added := by
  unfold Block.withGuarded
  cases h : intoLastGuard? type added b.statements with
  | none =>
    have hn := filterMap_guardedFor?_eq_nil (intoLastGuard?_eq_none_iff_guards.mp h)
    have hnew : (newGuard type added).guardedFor? type = some added :=
      if_pos (TypeRef.same_iff.mpr rfl)
    have hb : lastGuarded type b.statements = [] := by rw [lastGuarded, hn]; rfl
    have hlast : lastGuarded type (b.statements ++ [newGuard type added] ++ []) = added :=
      lastGuarded_of_last hnew (by simp)
    rw [List.append_nil] at hlast
    rw [hb]
    exact hlast
  | some ss' =>
    obtain ⟨earlier, s, s', after, hss, rfl, hs, ha⟩ := intoLastGuard?_eq_some h
    obtain ⟨guarded, body, span, rfl, hg, rfl⟩ := extendedGuard?_eq_some hs
    have hguard (b : Block) : (Stmt.classGuard guarded b span).guardedFor? type =
        some b.statements := if_pos (TypeRef.same_iff.mpr hg)
    rw [hss, lastGuarded_of_last (hguard body) ha]
    exact lastGuarded_of_last (hguard _) ha

theorem lastGuarded_mapStmts {w : Rewriter Id} [w.KeepsForm] (ss : List Stmt) :
    lastGuarded type (w.mapStmts ss) = w.mapStmts (lastGuarded type ss) := by
  have hg : Stmt.guardedFor? type ∘ w.mapStmt =
      fun s => (s.guardedFor? type).map w.mapStmts := by
    funext s
    cases s with
    | classGuard guarded body span =>
      by_cases hg : guarded.same type = true <;>
        simp [Stmt.guardedFor?, hg, Rewriter.mapBlock_eq]
    | _ => simp [Stmt.guardedFor?]
  rw [lastGuarded, lastGuarded, Rewriter.mapStmts_eq_map, List.filterMap_map, hg,
    ← List.map_filterMap, List.getLast?_map]
  cases (ss.filterMap (Stmt.guardedFor? type)).getLast? <;> rfl

end Guards

namespace ClassDecl

variable {o : Options} {c : ClassDecl}

/-- What a run has moved behind the guard in the method that the class runs once. -/
def movedIntoSetup (c c' : ClassDecl) : List Stmt :=
  (lastGuarded c.type (setupStatements c'.setup?)).drop
    (lastGuarded c.type (setupStatements c.setup?)).length

theorem movedIntoSetup_normalized (o : Options) (c : ClassDecl) :
    c.movedIntoSetup (c.normalized o) = o.adjuster.mapStmts (c.preamble .ofClass) := by
  rw [movedIntoSetup, setup?_normalized, setupStatements_map_adjusted, lastGuarded_mapStmts]
  have hl : lastGuarded c.type (setupStatements (c.setupWith o (c.preamble .ofClass) c.setup?)) =
      lastGuarded c.type (setupStatements c.setup?) ++ c.preamble .ofClass := by
    by_cases hp : c.preamble .ofClass = []
    · have hs : c.setupWith o [] c.setup? = c.setup? := if_pos rfl
      rw [hp, hs, List.append_nil]
    · rw [setupStatements_setupWith hp, lastGuarded_withGuarded]
      rfl
  rw [hl, Rewriter.mapStmts_append, List.drop_left' (Rewriter.length_mapStmts _)]

theorem violation?_of_scope (h : c.scopeFault? = none) {m : Member} (hm : m ∈ c.members) {e : Expr}
    (he : e ∈ m.initializerNodes) : c.violation? e = none := by
  rw [scopeFault?_eq_head?, List.head?_eq_none_iff, violations, List.flatMap_eq_nil_iff] at h
  exact List.filterMap_eq_nil_iff.mp (h m hm) e he

theorem mem_initializerNodes {side : Side} {e : Expr} (he : e ∈ Stmt.nodesAll (c.preamble side))
    (hn : e.namesInstance = true) : ∃ m ∈ c.members, e ∈ m.initializerNodes := by
  rw [Stmt.nodesAll_eq_flatMap] at he
  obtain ⟨s, hs, he⟩ := List.mem_flatMap.mp he
  obtain ⟨m, hm, hmoved⟩ := List.mem_filterMap.mp hs
  refine ⟨m, hm, ?_⟩
  rcases moved_eq_some hmoved with ⟨f, value, rfl, hi, rfl⟩ | ⟨b, rfl, _, rfl⟩
  · rw [Member.initializerNodes, hi]
    -- The assignment and the field that it assigns to are new.
    rcases List.mem_cons.mp he with rfl | he
    · cases hn
    · rcases List.mem_cons.mp he with rfl | he
      · cases hn
      · exact he
  · exact he

/-- Validation lets through only names of instances that the class has, and each of them gives way
to a path. -/
theorem namesNoInstance_withEnclosingReads (h : c.scopeFault? = none) (side : Side) :
    NamesNoInstance (c.withEnclosingReads (c.preamble side)) := by
  change ∀ e ∈ (Node.ofStmts (c.withEnclosingReads (c.preamble side))).exprs, _
  rw [← mapNode_ofStmts_enclosing]
  refine forall_exprs_enclosing ?_ ?_ ?_
  · intro x hx
    cases hx <;> rfl
  · exact fun _ _ _ _ _ => rfl
  · intro e he hread x hf
    rw [← Expr.namesInstance_form, hf, Expr.namesInstance_form]
    refine eq_false_of_ne_true fun hn => ?_
    obtain ⟨m, hm, hmem⟩ := mem_initializerNodes he hn
    have hv := violation?_of_scope h hm hmem
    obtain ⟨y, type, s, rfl⟩ := Expr.namesInstance_eq_true hn
    rw [violation?, encloses_of_not_read hread rfl] at hv
    cases hv

theorem namesNoInstance_enclosingAssignment (c : ClassDecl) :
    NamesNoInstance c.enclosingAssignment := by
  unfold enclosingAssignment
  split
  · exact namesNoInstance_nil
  · simp [NamesNoInstance, Stmt.nodesAll, Stmt.ofExpr, Stmt.nodes, Expr.assignment, Expr.nodes,
      Expr.inner, Expr.fieldName, Expr.localVar, Expr.namesInstance]

end ClassDecl

/-- What a constructor has in its preamble beyond what the constructor before had there. Only a
designated one has a preamble. -/
def Constructor.addedPreamble (before? : Option Constructor) (k : Constructor) : List Stmt :=
  if k.isDesignated then
    (k.preamble?.getD []).drop ((before?.bind Constructor.preamble?).getD []).length
  else []

theorem Constructor.preamble?_of_source {k : Constructor} (h : k.isLowered = false) :
    k.preamble? = none := by
  have hg : k.guarded? = none := by
    unfold isLowered at h
    unfold guarded?
    split at h <;> simp_all
  rw [preamble?, hg]

namespace ClassDecl

variable {o : Options} {c : ClassDecl} {k : Constructor}

theorem addedPreamble_normalConstructor (hh : c.HoistsInto o k (c.normalConstructor o k))
    (hd : k.isDesignated = true) {before? : Option Constructor}
    (hb : before?.bind Constructor.preamble? = k.preamble?) :
    (c.normalConstructor o k).addedPreamble before? =
      o.adjuster.mapStmts ((if k.isLowered then [] else c.enclosingAssignment) ++ c.hoisted) := by
  rw [Constructor.addedPreamble, if_pos (by simpa using hd), hb]
  cases hl : k.isLowered with
  | false =>
    rw [preamble?_normalConstructor_source hh hd hl, Constructor.preamble?_of_source hl]
    rfl
  | true =>
    by_cases hnew : c.hoisted = []
    · obtain ⟨hs, hn⟩ := hh.unextended hl hnew
      rw [Constructor.preamble?_of_mapStmts hs hn, hnew]
      cases k.preamble? <;> simp
    · obtain ⟨i, body, span, rest, n, hks, hkn, _, _, _⟩ := hh.extended hd hl hnew
      have hp := Constructor.preamble?_of_guard hks hkn
      rw [preamble?_normalConstructor_extended hh hd hl hnew hp, hp, Rewriter.mapStmts_append]
      exact List.drop_left' (Rewriter.length_mapStmts _)

theorem getElem?_constructors_of_complete {i : Nat} (h : c.isInterface = false)
    (hk : (c.withImplicitConstructor o).constructors[i]? = some k) :
    c.constructors[i]? = none ∧ k = .implicit o.defaultSelector ∨ c.constructors[i]? = some k := by
  rw [constructors_withImplicitConstructor o h] at hk
  split at hk
  · rename_i hn
    rw [hn, List.getElem?_nil]
    exact .inl ⟨rfl, List.mem_singleton.mp (List.mem_of_getElem? hk)⟩
  · exact .inr hk

theorem preamble?_of_complete {i : Nat} (h : c.isInterface = false)
    (hk : (c.withImplicitConstructor o).constructors[i]? = some k) :
    (c.constructors[i]?).bind Constructor.preamble? = k.preamble? := by
  rcases getElem?_constructors_of_complete h hk with ⟨hi, rfl⟩ | hi
  · rw [hi]
    rfl
  · rw [hi, Option.bind_some]

theorem namesNoInstance_addedPreamble (hf : c.fault? = none) {i : Nat} {k' : Constructor}
    (hk : (c.normalized o).constructors[i]? = some k') :
    NamesNoInstance (k'.addedPreamble c.constructors[i]?) := by
  obtain ⟨hinterface, _, hboundary, hscope⟩ := fault?_eq_none_iff.mp hf
  cases hi : c.isInterface with
  | true =>
    rw [constructors_normalized_of_interface hi, interfaceFault?_eq_none_iff.mp hinterface hi] at hk
    cases hk
  | false =>
    rw [constructors_normalized o hi, List.getElem?_map] at hk
    obtain ⟨k, hki, rfl⟩ := Option.map_eq_some_iff.mp hk
    have hh := normalConstructor_hoistsInto (o := o) hi hboundary (List.mem_of_getElem? hki)
    cases hd : k.isDesignated with
    | false =>
      rw [Constructor.addedPreamble, if_neg (by simp [hd])]
      exact namesNoInstance_nil
    | true =>
      rw [addedPreamble_normalConstructor hh hd (preamble?_of_complete hi hki),
        namesNoInstance_adjusted_iff, namesNoInstance_append, ← withEnclosingReads_preamble hi]
      refine ⟨?_, namesNoInstance_withEnclosingReads hscope .ofInstance⟩
      split
      · exact namesNoInstance_nil
      · exact namesNoInstance_enclosingAssignment c

/-- What a run moves into constructors names no enclosing instance. What it moves into the method
for the class names none exactly if the static initializers that move name none. -/
theorem normalize_namesNoInstance_iff {c' : ClassDecl} {s : Summary}
    (h : c.normalize o = .ok (c', s)) :
    (∀ (i : Nat) (k' : Constructor), c'.constructors[i]? = some k' →
      NamesNoInstance (k'.addedPreamble c.constructors[i]?)) ∧
    (NamesNoInstance (c.movedIntoSetup c') ↔ NamesNoInstance (c.preamble .ofClass)) := by
  obtain ⟨hf, rfl, _⟩ := normalize_eq_ok_iff.mp h
  refine ⟨fun i k' hk => namesNoInstance_addedPreamble hf hk, ?_⟩
  rw [movedIntoSetup_normalized, namesNoInstance_adjusted_iff]

def stamp : ClassDecl where
  type := ⟨⟨1⟩, "Stamp"⟩
  kind := .ordinary
  superclass := none
  enclosing := [.to ⟨⟨2⟩, "Envelope"⟩]
  members := [
    .field { Field.ofName "holder" "Envelope *" with
      initializer := some (.enclosingInstance ⟨⟨2⟩, "Envelope"⟩) },
    .field { Field.ofName "count" "int" with
      isStatic := true, initializer := some (.int 0 .synthetic) },
    .constructor (.ofBody "init" [] [])]
  span := .synthetic

theorem normalize_namesNoInstance_iff_stamp :
    ∃ c' s, stamp.normalize .standard = .ok (c', s) ∧
      (∀ (i : Nat) (k' : Constructor), c'.constructors[i]? = some k' →
        NamesNoInstance (k'.addedPreamble stamp.constructors[i]?)) ∧
      NamesNoInstance (stamp.movedIntoSetup c') := by
  have h : stamp.normalize .standard = .ok (stamp.normalized .standard, stamp.changes .standard) :=
    normalize_eq_ok_iff.mpr ⟨by decide +kernel, rfl, rfl⟩
  obtain ⟨hconstructors, hsetup⟩ := normalize_namesNoInstance_iff h
  refine ⟨_, _, h, hconstructors, hsetup.mpr ?_⟩
  rw [namesNoInstance_iff_countP]
  decide +kernel

def flap : ClassDecl where
  type := ⟨⟨1⟩, "Flap"⟩
  kind := .ordinary
  superclass := none
  enclosing := [.to ⟨⟨2⟩, "Envelope"⟩]
  members := [
    .field { Field.ofName "holder" "Envelope *" with
      isStatic := true, initializer := some (.enclosingInstance ⟨⟨2⟩, "Envelope"⟩) },
    .constructor (.ofBody "init" [] [])]
  span := .synthetic

/-- The method for the class reads an envelope by a name that no longer means one. -/
theorem not_namesNoInstance_flap :
    ∃ c' s, flap.normalize .standard = .ok (c', s) ∧ ¬NamesNoInstance (flap.movedIntoSetup c') := by
  refine ⟨_, _, normalize_eq_ok_iff.mpr ⟨by decide +kernel, rfl, rfl⟩, ?_⟩
  rw [movedIntoSetup_normalized, namesNoInstance_adjusted_iff, namesNoInstance_iff_countP]
  decide +kernel

end ClassDecl

end ExplicitInit
