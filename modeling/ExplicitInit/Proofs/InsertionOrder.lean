import ExplicitInit.Proofs.Lists
import ExplicitInit.Proofs.SharedPreambles
import Mathlib.Data.List.Nodup

namespace ExplicitInit

def Expr.fieldRef? : Expr → Option FieldRef
  | .name _ (some (.field f)) _ => some f
  | .fieldAccess _ f _ => some f
  | _ => none

def Expr.assignedField? : Expr → Option String
  | .assign target _ _ => target.fieldRef?.map FieldRef.name
  | _ => none

def Stmt.assignedField? : Stmt → Option String
  | .expr e _ => e.assignedField?
  | _ => none

def assignedFields (statements : List Stmt) : List String :=
  statements.filterMap Stmt.assignedField?

section Assignments

theorem respeller_keeps {β : Type} {f : Expr → β}
    (hwalk : ∀ e, f (respeller.walkExpr e).run = f e)
    (hunits : ∀ units span, f (.unitString units span) = f (.string units span))
    (hformat : ∀ ls op left right span, f (formatOf ls span) = f (.binary op left right span))
    (e : Expr) : f (respeller.mapExpr e) = f e := by
  cases e with
  | string units span =>
    by_cases hu : allInline units = true
    · simpa [Rewriter.mapExpr, Rewriter.rewriteExpr, respeller, hu] using hwalk (.string units span)
    · simpa [Rewriter.mapExpr, Rewriter.rewriteExpr, respeller, hu] using hunits units span
  | binary op left right span =>
    cases hm : (Expr.binary op left right span).mixture? with
    | none =>
      simpa [Rewriter.mapExpr, Rewriter.rewriteExpr, respeller, hm] using
        hwalk (.binary op left right span)
    | some ls =>
      simpa [Rewriter.mapExpr, Rewriter.rewriteExpr, respeller, hm] using
        hformat ls op left right span
  | _ => exact hwalk _

theorem respeller_fieldRef? (e : Expr) : (respeller.mapExpr e).fieldRef? = e.fieldRef? := by
  refine respeller_keeps (fun e => ?_) (fun _ _ => rfl) (fun _ _ _ _ _ => rfl) e
  cases e with
  | call receiver => cases receiver <;> rfl
  | new type selector args enclosing => cases enclosing <;> rfl
  | _ => rfl

theorem respeller_assignedField? (e : Expr) :
    (respeller.mapExpr e).assignedField? = e.assignedField? := by
  refine respeller_keeps (fun e => ?_) (fun _ _ => rfl) (fun _ _ _ _ _ => rfl) e
  cases e with
  | assign target value span =>
    exact congrArg (Option.map FieldRef.name) (respeller_fieldRef? target)
  | call receiver => cases receiver <;> rfl
  | new type selector args enclosing => cases enclosing <;> rfl
  | _ => rfl

theorem assignedFields_adjusted (o : Options) (ss : List Stmt) :
    assignedFields (o.adjuster.mapStmts ss) = assignedFields ss := by
  have he (e : Expr) : (o.adjuster.mapExpr e).assignedField? = e.assignedField? := by
    unfold Options.adjuster
    split
    · exact respeller_assignedField? e
    · rw [identity_mapExpr]
  have hs (s : Stmt) : (o.adjuster.mapStmt s).assignedField? = s.assignedField? := by
    cases s with
    | expr e span => rw [Rewriter.mapStmt_expr]; exact he e
    | _ => simp [Stmt.assignedField?]
  rw [assignedFields, Rewriter.mapStmts_eq_map, List.filterMap_map]
  exact congrArg (ss.filterMap ·) (funext hs)

theorem assignedFields_append (ss ts : List Stmt) :
    assignedFields (ss ++ ts) = assignedFields ss ++ assignedFields ts :=
  List.filterMap_append

def Member.pendingField? : Member → Option String
  | .field f => if f.isStatic || f.initializer.isNone then none else some f.name
  | .block _ | .constructor _ | .method _ => none

namespace ClassDecl

variable (c : ClassDecl)

theorem fieldRef?_mapExpr_fieldName (f : FieldRef) :
    ((enclosingRewriter c).mapExpr (.fieldName f)).fieldRef? = some f := by
  have hm : (enclosingRewriter c).mapExpr (.fieldName f) =
      (c.reachField? f).getD (.fieldName f) := rfl
  rw [hm, reachField?]
  split
  · rfl
  · cases c.reach? f.owner <;> rfl

theorem assignedField?_instanceInitializer (m : Member) :
    (c.instanceInitializer? m).bind
      (fun s => ((enclosingRewriter c).mapStmt s).assignedField?) = m.pendingField? := by
  cases m with
  | field f =>
    cases hs : f.isStatic with
    | true => simp [instanceInitializer?, Member.pendingField?, hs]
    | false =>
      cases hi : f.initializer with
      | none => simp [instanceInitializer?, Member.pendingField?, hs, hi]
      | some e =>
        have ht := fieldRef?_mapExpr_fieldName c (.ofInstance c.type f.name)
        simp only [instanceInitializer?, Member.pendingField?, hs, hi, Bool.false_eq_true,
          ↓reduceIte, Option.map_some, Option.bind_some, Rewriter.mapStmt_expr, Option.isNone_some,
          Bool.or_self]
        exact congrArg (Option.map FieldRef.name) ht
  | block b => cases hs : b.isStatic <;> simp [instanceInitializer?, Member.pendingField?, hs,
      Stmt.assignedField?]
  | constructor k => rfl
  | method f => rfl

theorem assignedFields_hoisted :
    assignedFields c.hoisted = c.members.filterMap Member.pendingField? := by
  rw [hoisted, assignedFields, List.filterMap_map, instanceInitializers, List.filterMap_filterMap]
  exact congrArg (c.members.filterMap ·) (funext (assignedField?_instanceInitializer c))

end ClassDecl

end Assignments

def AtEachStep (P : List Edit → Edit → Prop) (edits : List Edit) : Prop :=
  ∀ earlier e, earlier ++ [e] <+: edits → P earlier e

theorem atEachStep_nil {P : List Edit → Edit → Prop} : AtEachStep P [] := by
  intro earlier e hp
  simp at hp

theorem atEachStep_concat {P : List Edit → Edit → Prop} {edits : List Edit} {e : Edit} :
    AtEachStep P (edits ++ [e]) ↔ AtEachStep P edits ∧ P edits e := by
  constructor
  · intro h
    refine ⟨fun earlier e' hp => ?_, h edits e (List.prefix_refl _)⟩
    exact h earlier e' (hp.trans (List.prefix_append _ _))
  · rintro ⟨h, he⟩ earlier e' hp
    rcases List.prefix_concat_iff.mp hp with heq | hp
    · obtain ⟨rfl, hlast⟩ := List.append_inj' heq rfl
      obtain rfl := List.singleton_inj.mp hlast
      exact he
    · exact h earlier e' hp

namespace ClassDecl

def fieldNames (c : ClassDecl) : List String :=
  c.fields.map Field.name

/-- The fields that earlier runs gave their values. -/
def takenFields (c : ClassDecl) (edits : List Edit) : List String :=
  assignedFields ((c.rounds edits).flatMap Round.hoisted)

/-- A step that inserts an instance field of a new name with an initializer, or normalizes. -/
def InsertsFresh (o : Options) (c : ClassDecl) : Edit → Prop
  | .insert _ (.field f) =>
    f.isStatic = false ∧ f.initializer.isSome = true ∧ f.name ∉ c.fieldNames
  | .normalize o' => o' = o
  | .insert _ _ | .push _ => False

/-- A step that inserts nothing in front of a field whose initializer was taken before. -/
def InsertsBehind (c : ClassDecl) (earlier : List Edit) : Edit → Prop
  | .insert i _ =>
    ∀ g, .field g ∈ (c.after earlier).members.drop i → g.name ∉ c.takenFields earlier
  | .push _ | .normalize _ => True

section Names

variable {o : Options} {c : ClassDecl}

theorem fieldNames_congr {d : ClassDecl} (h : d.declarations = c.declarations) :
    d.fieldNames = c.fieldNames :=
  congrArg (List.map Field.name) (fields_congr h)

theorem fieldNames_withEnclosingField (c : ClassDecl) :
    ∃ front, c.withEnclosingField.fieldNames = front ++ c.fieldNames ∧ front.Nodup ∧
      ∀ x ∈ front, x ∉ c.fieldNames := by
  unfold withEnclosingField
  split
  · exact ⟨[], rfl, List.nodup_nil, by simp⟩
  · rename_i link _ _
    split
    · exact ⟨[], rfl, List.nodup_nil, by simp⟩
    · rename_i hnone
      refine ⟨[link.field], rfl, by simp, fun x hx hmem => hnone ?_⟩
      obtain rfl := List.mem_singleton.mp hx
      obtain ⟨f, hf, hname⟩ := List.mem_map.mp hmem
      exact List.find?_isSome.mpr ⟨f, hf, by simpa using hname⟩

theorem fieldNames_normalized (o : Options) (hc : c.isInterface = false) :
    ∃ front, (c.normalized o).fieldNames = front ++ c.fieldNames ∧ front.Nodup ∧
      ∀ x ∈ front, x ∉ c.fieldNames := by
  have hr : (c.withRoles o).isInterface = false := (isInterface_withRoles o c).trans hc
  have hsetup : (c.normalized o).declarations =
      (((c.withRoles o).lowered o).withoutPreamble .ofClass).declarations := by
    rw [declarations_normalized, declarations_withClassSetup, declarations_withoutPreamble]
  have hnames : (c.normalized o).fieldNames = ((c.withRoles o).lowered o).fieldNames :=
    (fieldNames_congr hsetup).trans (map_name_fields_withoutPreamble .ofClass)
  have hbare : ((c.withRoles o).withoutPreamble .ofInstance).fieldNames = c.fieldNames :=
    (map_name_fields_withoutPreamble .ofInstance).trans
      (fieldNames_congr (declarations_withRoles o))
  have hlowered := fieldNames_congr
    (declarations_withLowered ((c.withRoles o).loweringContext o)
      ((c.withRoles o).withoutPreamble .ofInstance))
  rw [hnames, lowered_eq o hr, ← hbare, ← hlowered]
  exact fieldNames_withEnclosingField _

theorem fieldNames_insertAt (c : ClassDecl) (i : Nat) (f : Field) :
    (c.insertAt i (.field f)).fieldNames =
      ((c.members.take i).filterMap Member.field?).map Field.name ++
        f.name :: ((c.members.drop i).filterMap Member.field?).map Field.name := by
  rw [fieldNames, fields, insertAt, List.filterMap_append, List.filterMap_cons, List.map_append]
  rfl

theorem fieldNames_eq_append (c : ClassDecl) (i : Nat) :
    c.fieldNames = ((c.members.take i).filterMap Member.field?).map Field.name ++
      ((c.members.drop i).filterMap Member.field?).map Field.name := by
  rw [← List.map_append, ← List.filterMap_append, List.take_append_drop]
  rfl

theorem sublist_pendingFields (ms : List Member) :
    (ms.filterMap Member.pendingField?).Sublist ((ms.filterMap Member.field?).map Field.name) := by
  induction ms with
  | nil => exact List.Sublist.refl _
  | cons m ms ih =>
    cases m with
    | field f =>
      by_cases hf : (f.isStatic || f.initializer.isNone) = true
      · rw [List.filterMap_cons_none (by simp [Member.pendingField?, hf])]
        exact ih.cons f.name
      · rw [List.filterMap_cons_some (b := f.name) (by simp only [Member.pendingField?, hf]; rfl)]
        exact ih.cons_cons f.name
    | _ => exact ih

end Names

/-- How the values that fields have been given, and those that wait, stand to the declarations. -/
structure KeepsOrder (c : ClassDecl) (edits : List Edit) : Prop where
  nodup : (c.after edits).fieldNames.Nodup
  declared : ∀ x ∈ c.takenFields edits, x ∈ (c.after edits).fieldNames
  order : (c.takenFields edits ++ (c.after edits).members.filterMap Member.pendingField?).Sublist
    (c.after edits).fieldNames ↔ AtEachStep c.InsertsBehind edits

section Steps

variable {o : Options} {c : ClassDecl} {edits : List Edit}

theorem takenFields_insert (i : Nat) (m : Member) :
    c.takenFields (edits ++ [.insert i m]) = c.takenFields edits := by
  rw [takenFields, rounds_concat, round?, Option.toList_none, List.append_nil]
  rfl

theorem takenFields_normalize_of_accepted (hf : (c.after edits).fault? = none) :
    c.takenFields (edits ++ [.normalize o]) =
      c.takenFields edits ++ (c.after edits).members.filterMap Member.pendingField? := by
  rw [takenFields, rounds_concat, round?_of_accepted hf, List.flatMap_append,
    assignedFields_append, ← assignedFields_hoisted]
  simp [takenFields]

theorem takenFields_normalize_of_rejected {fault : Fault}
    (hf : (c.after edits).fault? = some fault) :
    c.takenFields (edits ++ [.normalize o]) = c.takenFields edits := by
  rw [takenFields, rounds_concat, round?_of_rejected hf, Option.toList_none, List.append_nil]
  rfl

theorem insertsBehind_iff {i : Nat} {m : Member} :
    c.InsertsBehind edits (.insert i m) ↔
      ∀ x ∈ (((c.after edits).members.drop i).filterMap Member.field?).map Field.name,
        x ∉ c.takenFields edits := by
  constructor
  · intro h x hx
    obtain ⟨g, hg, rfl⟩ := List.mem_map.mp hx
    obtain ⟨m', hm, hmg⟩ := List.mem_filterMap.mp hg
    cases m' with
    | field g' =>
      obtain rfl := Option.some.inj hmg
      exact h _ hm
    | _ => cases hmg
  · intro h g hg
    exact h g.name (List.mem_map.mpr ⟨g, List.mem_filterMap.mpr ⟨_, hg, rfl⟩, rfl⟩)

theorem pendingFields_normalized (hc : c.isInterface = false) :
    (c.normalized o).members.filterMap Member.pendingField? = [] := by
  have hc' : (c.normalized o).isInterface = false := (isInterface_normalized o).trans hc
  have hn : (c.normalized o).instanceInitializers = [] := by
    rw [← preamble_ofInstance hc']
    exact preamble_ofInstance_normalized o hc
  rw [← assignedFields_hoisted, hoisted, hn]
  rfl

theorem keepsOrder_nil (hn : c.fieldNames.Nodup) : c.KeepsOrder [] where
  nodup := hn
  declared := by simp [takenFields, rounds, assignedFields]
  order := iff_of_true (sublist_pendingFields c.members) atEachStep_nil

theorem KeepsOrder.insert {i : Nat} {f : Field} (h : c.KeepsOrder edits)
    (he : (c.after edits).InsertsFresh o (.insert i (.field f))) :
    c.KeepsOrder (edits ++ [.insert i (.field f)]) := by
  obtain ⟨hs, hi, hfresh⟩ := he
  have hp : (Member.field f).pendingField? = some f.name := by
    simp [Member.pendingField?, hs, Option.isNone_eq_false_iff.mpr hi]
  have hnames := fieldNames_eq_append (c.after edits) i
  have hnodup := h.nodup
  rw [hnames] at hnodup hfresh
  refine ⟨?_, fun x hx => ?_, ?_⟩
  · rw [after_concat, ClassDecl.edited, fieldNames_insertAt, List.nodup_middle]
    exact List.nodup_cons.mpr ⟨hfresh, hnodup⟩
  · rw [takenFields_insert] at hx
    have hd := h.declared x hx
    rw [hnames] at hd
    rw [after_concat, ClassDecl.edited, fieldNames_insertAt]
    rcases List.mem_append.mp hd with hd | hd
    · exact List.mem_append_left _ hd
    · exact List.mem_append_right _ (List.mem_cons_of_mem _ hd)
  · have hpending : (c.after edits).members.filterMap Member.pendingField? =
        ((c.after edits).members.take i).filterMap Member.pendingField? ++
          ((c.after edits).members.drop i).filterMap Member.pendingField? := by
      rw [← List.filterMap_append, List.take_append_drop]
    rw [takenFields_insert, atEachStep_concat, ← h.order, insertsBehind_iff, hnames, hpending,
      after_concat, ClassDecl.edited, fieldNames_insertAt, insertAt, List.filterMap_append,
      List.filterMap_cons_some hp]
    exact sublist_insert_iff (sublist_pendingFields _) (sublist_pendingFields _) hnodup hfresh

theorem KeepsOrder.normalize (hc : c.isInterface = false) (h : c.KeepsOrder edits) :
    c.KeepsOrder (edits ++ [.normalize o]) := by
  have hc' : (c.after edits).isInterface = false := (isInterface_after c edits).trans hc
  have hbehind : AtEachStep c.InsertsBehind (edits ++ [.normalize o]) ↔
      AtEachStep c.InsertsBehind edits :=
    atEachStep_concat.trans (and_iff_left trivial)
  cases hf : (c.after edits).fault? with
  | some fault =>
    have hsame : c.after (edits ++ [.normalize o]) = c.after edits := by
      rw [after_concat, edited_normalize_of_rejected hf]
    refine ⟨?_, ?_, ?_⟩
    · rw [hsame]
      exact h.nodup
    · rw [hsame, takenFields_normalize_of_rejected hf]
      exact h.declared
    · rw [hsame, takenFields_normalize_of_rejected hf, hbehind]
      exact h.order
  | none =>
    have hnew : c.after (edits ++ [.normalize o]) = (c.after edits).normalized o := by
      rw [after_concat, edited_normalize_of_accepted hf]
    obtain ⟨front, hnames, hnodup, hfront⟩ := fieldNames_normalized o hc'
    have hdeclared : ∀ x ∈ c.takenFields edits ++
        (c.after edits).members.filterMap Member.pendingField?, x ∈ (c.after edits).fieldNames := by
      intro x hx
      rcases List.mem_append.mp hx with hx | hx
      · exact h.declared x hx
      · exact (sublist_pendingFields _).subset hx
    refine ⟨?_, fun x hx => ?_, ?_⟩
    · rw [hnew, hnames]
      refine List.nodup_append.mpr ⟨hnodup, h.nodup, fun x hx y hy hxy => ?_⟩
      subst hxy
      exact hfront x hx hy
    · rw [takenFields_normalize_of_accepted hf] at hx
      rw [hnew, hnames]
      exact List.mem_append_right _ (hdeclared x hx)
    -- What waited is now taken, and the field in front is not among what has a value.
    · rw [takenFields_normalize_of_accepted hf, hnew, pendingFields_normalized hc', hnames,
        List.append_nil, hbehind, ← h.order]
      constructor
      · exact List.Sublist.of_sublist_append_right fun x hx hmem => hfront x hmem (hdeclared x hx)
      · exact fun hs => hs.trans (List.sublist_append_right _ _)

theorem keepsOrder_after (hc : c.isInterface = false) (hn : c.fieldNames.Nodup)
    (he : AtEachStep (fun earlier e => (c.after earlier).InsertsFresh o e) edits) :
    c.KeepsOrder edits := by
  induction edits using List.reverseRecOn with
  | nil => exact keepsOrder_nil hn
  | append_singleton edits e ih =>
    obtain ⟨hearlier, hlast⟩ := atEachStep_concat.mp he
    have h := ih hearlier
    cases e with
    | insert i m =>
      cases m with
      | field f => exact h.insert hlast
      | _ => cases hlast
    | normalize o' => exact h.normalize hc
    | push m => cases hlast

theorem grows_of_insertsFresh {d : ClassDecl} {e : Edit} (he : d.InsertsFresh o e) : e.Grows o := by
  cases e with
  | insert i m =>
    cases m with
    | field f => rfl
    | _ => cases he
  | normalize o' => exact he
  | push m => cases he

theorem constructors_withImplicitConstructor_normalized {d : ClassDecl}
    (hd : d.isInterface = false) :
    ((d.normalized o).withImplicitConstructor o).constructors = (d.normalized o).constructors := by
  have hne : (d.normalized o).constructors ≠ [] := by
    rw [constructors_normalized o hd, Ne, List.map_eq_nil_iff]
    exact constructors_withImplicitConstructor_ne_nil hd
  rw [constructors_withImplicitConstructor o ((isInterface_normalized o).trans hd), if_neg hne]

theorem constructors_of_rounds (hc : c.isInterface = false)
    (he : AtEachStep (fun earlier e => (c.after earlier).InsertsFresh o e) edits) :
    ((c.after edits).withImplicitConstructor o).constructors.length =
        (c.withImplicitConstructor o).constructors.length ∧
      ∀ r ∈ c.rounds edits, r.constructors = (c.withImplicitConstructor o).constructors.length := by
  induction edits using List.reverseRecOn with
  | nil => exact ⟨rfl, by simp [rounds]⟩
  | append_singleton edits e ih =>
    obtain ⟨hearlier, hlast⟩ := atEachStep_concat.mp he
    obtain ⟨hlength, hrounds⟩ := ih hearlier
    have hc' : (c.after edits).isInterface = false := (isInterface_after c edits).trans hc
    rw [after_concat, rounds_concat]
    cases e with
    | insert i m =>
      cases m with
      | field f =>
        have hsame : ((c.after edits).insertAt i (.field f)).constructors =
            (c.after edits).constructors := constructors_insertAt_of_declaration rfl
        refine ⟨?_, by simpa [round?] using hrounds⟩
        rw [← hlength, ClassDecl.edited, constructors_withImplicitConstructor o hc',
          constructors_withImplicitConstructor o (c := (c.after edits).insertAt i (.field f)) hc',
          hsame]
      | _ => cases hlast
    | normalize o' =>
      obtain rfl : o' = o := hlast
      cases hf : (c.after edits).fault? with
      | some fault =>
        rw [edited_normalize_of_rejected hf, round?_of_rejected hf, Option.toList_none,
          List.append_nil]
        exact ⟨hlength, hrounds⟩
      | none =>
        rw [edited_normalize_of_accepted hf, round?_of_accepted hf,
          constructors_withImplicitConstructor_normalized hc', constructors_normalized o' hc',
          List.length_map]
        refine ⟨hlength, fun r hr => ?_⟩
        rcases List.mem_append.mp hr with hr | hr
        · exact hrounds r hr
        · obtain rfl := List.mem_singleton.mp hr
          exact hlength
    | push m => cases hlast

/-- Fields that come in between runs are given their values behind the assignment of the enclosing
instance, in the order of declaration exactly if none came in front of a field that an earlier run
had given its value. -/
theorem normalize_after_order (hc : c.kind = .ordinary)
    (hk : ∀ k ∈ c.constructors, k.isLowered = false) (hn : c.fieldNames.Nodup)
    (he : AtEachStep (fun earlier e => (c.after earlier).InsertsFresh o e) edits)
    {c' : ClassDecl} {s : Summary} (h : (c.after edits).normalize o = .ok (c', s)) :
    ∀ k ∈ c'.constructors, k.isDesignated = true → ∃ assignments,
      k.preamble? = some (o.adjuster.mapStmts c.enclosingAssignment ++ assignments) ∧
        ((assignedFields assignments).Sublist c'.fieldNames ↔
          AtEachStep c.InsertsBehind edits) := by
  obtain ⟨hf, rfl, _⟩ := normalize_eq_ok_iff.mp h
  have hi : c.isInterface = false := isInterface_eq_false_iff.mpr hc
  intro k hk' hd
  obtain ⟨i, hik⟩ := List.getElem?_of_mem hk'
  have hlast : AtEachStep (fun earlier e => (c.after earlier).InsertsFresh o e)
      (edits ++ [.normalize o]) := atEachStep_concat.mpr ⟨he, rfl⟩
  have hall : hoistedSince i (c.rounds (edits ++ [.normalize o])) =
      (c.rounds (edits ++ [.normalize o])).flatMap Round.hoisted := by
    have hlt : i < (c.withImplicitConstructor o).constructors.length := by
      have hlt := (List.getElem?_eq_some_iff.mp hik).1
      rw [constructors_normalized o ((isInterface_after c edits).trans hi), List.length_map] at hlt
      rwa [(constructors_of_rounds hi he).1] at hlt
    rw [hoistedSince, List.filter_eq_self.mpr]
    intro r hr
    rw [(constructors_of_rounds hi hlast).2 r hr]
    exact decide_eq_true hlt
  have hp := preamble?_normalized_after hi hk (fun e hm => ?_) hf hik hd
  · rw [hall, Rewriter.mapStmts_append] at hp
    refine ⟨_, hp, ?_⟩
    have horder := (keepsOrder_after hi hn hlast).order
    rw [after_concat, edited_normalize_of_accepted hf,
      pendingFields_normalized ((isInterface_after c edits).trans hi), List.append_nil,
      atEachStep_concat] at horder
    rw [assignedFields_adjusted]
    exact horder.trans (and_iff_left trivial)
  · obtain ⟨earlier, later, rfl⟩ := List.append_of_mem hm
    exact grows_of_insertsFresh (he earlier e ⟨later, by simp⟩)

end Steps

def interval : ClassDecl where
  type := ⟨⟨1⟩, "Interval"⟩
  kind := .ordinary
  superclass := none
  enclosing := []
  members := [.field { Field.ofName "stop" "int" with initializer := some (.int 9 .synthetic) }]
  span := .synthetic

def intervalStart : Field :=
  { Field.ofName "start" "int" with initializer := some (.int 1 .synthetic) }

def intervalEdits : List Edit :=
  [.normalize .standard, .insert 0 (.field intervalStart)]

theorem insertsFresh_interval : AtEachStep
    (fun earlier e => (interval.after earlier).InsertsFresh .standard e) intervalEdits := by
  have hfirst : AtEachStep (fun earlier e => (interval.after earlier).InsertsFresh .standard e)
      [.normalize .standard] := atEachStep_concat.mpr ⟨atEachStep_nil, rfl⟩
  have hname : intervalStart.name ∉ (interval.after [.normalize .standard]).fieldNames := by
    decide +kernel
  have hsecond : (interval.after [.normalize .standard]).InsertsFresh .standard
      (.insert 0 (.field intervalStart)) := ⟨rfl, rfl, hname⟩
  exact atEachStep_concat.mpr ⟨hfirst, hsecond⟩

theorem normalize_interval : (interval.after intervalEdits).normalize .standard =
    .ok ((interval.after intervalEdits).normalized .standard,
      (interval.after intervalEdits).changes .standard) :=
  normalize_eq_ok_iff.mpr ⟨by decide +kernel, rfl, rfl⟩

theorem normalize_after_order_interval :
    interval.kind = .ordinary ∧ (∀ k ∈ interval.constructors, k.isLowered = false) ∧
      interval.fieldNames.Nodup ∧
      AtEachStep (fun earlier e => (interval.after earlier).InsertsFresh .standard e)
        intervalEdits ∧
      ∃ c' s, (interval.after intervalEdits).normalize .standard = .ok (c', s) ∧
        ∀ k ∈ c'.constructors, k.isDesignated = true → ∃ assignments,
          k.preamble? = some (Options.standard.adjuster.mapStmts interval.enclosingAssignment ++
            assignments) ∧
          ((assignedFields assignments).Sublist c'.fieldNames ↔
            AtEachStep interval.InsertsBehind intervalEdits) := by
  have hk : ∀ k ∈ interval.constructors, k.isLowered = false := by decide
  have hn : interval.fieldNames.Nodup := by decide
  exact ⟨rfl, hk, hn, insertsFresh_interval, _, _, normalize_interval,
    normalize_after_order rfl hk hn insertsFresh_interval normalize_interval⟩

/-- The interval declares its start before its stop and gives them their values the other way. -/
theorem not_ordered_frontField :
    interval.kind = .ordinary ∧ (∀ k ∈ interval.constructors, k.isLowered = false) ∧
      interval.fieldNames.Nodup ∧
      AtEachStep (fun earlier e => (interval.after earlier).InsertsFresh .standard e)
        intervalEdits ∧
      ∃ c' s k preamble, (interval.after intervalEdits).normalize .standard = .ok (c', s) ∧
        c'.constructors = [k] ∧ k.isDesignated = true ∧ k.preamble? = some preamble ∧
        ¬(assignedFields preamble).Sublist c'.fieldNames := by
  have hview : ((interval.after intervalEdits).normalized .standard).constructors.map
      (fun k => (k.isDesignated, k.preamble?.map assignedFields)) =
        [(true, some ["stop", "start"])] := by decide +kernel
  have hnames : ((interval.after intervalEdits).normalized .standard).fieldNames =
      ["start", "stop"] := by decide +kernel
  obtain ⟨k, hk, hview⟩ := List.map_eq_singleton_iff.mp hview
  obtain ⟨hd, hp⟩ := Prod.mk.inj hview
  obtain ⟨preamble, hp, hassigned⟩ := Option.map_eq_some_iff.mp hp
  refine ⟨rfl, by decide, by decide, insertsFresh_interval, _, _, k, preamble, normalize_interval,
    hk, hd, hp, ?_⟩
  rw [hassigned, hnames]
  decide

end ClassDecl

end ExplicitInit
