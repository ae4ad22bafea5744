import ExplicitInit.Proofs.Declarations

namespace ExplicitInit

section Guards

variable {type : TypeRef} {added more : List Stmt}

def Stmt.extendedGuard? (type : TypeRef) (added : List Stmt) : Stmt → Option Stmt
  | .classGuard guarded body span =>
    if guarded.same type then
      some (.classGuard guarded { body with statements := body.statements ++ added } span)
    else none
  | _ => none

theorem intoLastGuard?_cons (s : Stmt) (ss : List Stmt) :
    intoLastGuard? type added (s :: ss) =
      ((intoLastGuard? type added ss).map (s :: ·)).or
        ((s.extendedGuard? type added).map (· :: ss)) := by
  cases hs : intoLastGuard? type added ss with
  | some later => cases s <;> simp [intoLastGuard?, hs]
  | none =>
    cases s with
    | classGuard guarded body span =>
      by_cases hg : guarded.same type = true <;> simp [intoLastGuard?, Stmt.extendedGuard?, hs, hg]
    | _ => simp [intoLastGuard?, Stmt.extendedGuard?, hs]

theorem extendedGuard?_eq_none_iff (more : List Stmt) {s : Stmt} :
    s.extendedGuard? type more = none ↔ s.extendedGuard? type added = none := by
  cases s with
  | classGuard guarded body span =>
    by_cases hg : guarded.same type = true <;> simp [Stmt.extendedGuard?, hg]
  | _ => rfl

theorem extendedGuard?_append {s s' : Stmt} (h : s.extendedGuard? type added = some s') :
    s'.extendedGuard? type more = s.extendedGuard? type (added ++ more) := by
  cases s with
  | classGuard guarded body span =>
    by_cases hg : guarded.same type = true
    · simp only [Stmt.extendedGuard?, hg, if_true] at h
      cases Option.some.inj h
      simp [Stmt.extendedGuard?, hg]
    · simp [Stmt.extendedGuard?, hg] at h
  | _ => cases h

theorem intoLastGuard?_concat (ss : List Stmt) :
    intoLastGuard? type more (ss ++ [newGuard type added]) =
      some (ss ++ [newGuard type (added ++ more)]) := by
  induction ss with
  | nil => simp [intoLastGuard?_cons, intoLastGuard?, Stmt.extendedGuard?, newGuard, Block.ofList]
  | cons s ss ih => rw [List.cons_append, intoLastGuard?_cons, ih]; rfl

theorem intoLastGuard?_eq_none_iff (more : List Stmt) {ss : List Stmt} :
    intoLastGuard? type more ss = none ↔ intoLastGuard? type added ss = none := by
  induction ss with
  | nil => exact Iff.rfl
  | cons s ss ih =>
    rw [intoLastGuard?_cons, intoLastGuard?_cons, Option.or_eq_none_iff, Option.or_eq_none_iff,
      Option.map_eq_none_iff, Option.map_eq_none_iff, Option.map_eq_none_iff,
      Option.map_eq_none_iff, ih, extendedGuard?_eq_none_iff]

theorem intoLastGuard?_append {ss ss' : List Stmt} (h : intoLastGuard? type added ss = some ss') :
    intoLastGuard? type more ss' = intoLastGuard? type (added ++ more) ss := by
  induction ss generalizing ss' with
  | nil => cases h
  | cons s ss ih =>
    rw [intoLastGuard?_cons] at h
    cases hs : intoLastGuard? type added ss with
    | some later =>
      rw [hs] at h
      cases Option.some.inj h
      -- The guard stands further back, so it does for whatever goes behind it.
      obtain ⟨found, hf⟩ := Option.ne_none_iff_exists'.mp fun hn => by
        rw [(intoLastGuard?_eq_none_iff added).mpr hn] at hs
        cases hs
      rw [intoLastGuard?_cons, intoLastGuard?_cons, ih hs, hf]
      rfl
    | none =>
      rw [hs] at h
      obtain ⟨s', hs', rfl⟩ := Option.map_eq_some_iff.mp h
      have hn : ∀ later, intoLastGuard? type later ss = none :=
        fun later => (intoLastGuard?_eq_none_iff later).mpr hs
      rw [intoLastGuard?_cons, intoLastGuard?_cons, hn, hn, extendedGuard?_append hs']
      rfl

theorem withGuarded_append (b : Block) :
    (b.withGuarded type added).withGuarded type more = b.withGuarded type (added ++ more) := by
  cases h : intoLastGuard? type added b.statements with
  | none =>
    have hm := (intoLastGuard?_eq_none_iff (added ++ more)).mpr h
    simp [Block.withGuarded, h, hm, intoLastGuard?_concat]
  | some ss' =>
    have ha : intoLastGuard? type more ss' = intoLastGuard? type (added ++ more) b.statements :=
      intoLastGuard?_append h
    cases hm : intoLastGuard? type (added ++ more) b.statements with
    | none => rw [(intoLastGuard?_eq_none_iff added).mpr hm] at h; cases h
    | some found => simp [Block.withGuarded, h, ha, hm]

variable {w : Rewriter Id} [w.KeepsForm]

theorem intoLastGuard?_mapStmts (ss : List Stmt) :
    intoLastGuard? type (w.mapStmts added) (w.mapStmts ss) =
      (intoLastGuard? type added ss).map w.mapStmts := by
  have hg : ∀ s : Stmt, (w.mapStmt s).extendedGuard? type (w.mapStmts added) =
      (s.extendedGuard? type added).map w.mapStmt := by
    intro s
    cases s with
    | classGuard guarded body span =>
      by_cases hg : guarded.same type = true <;>
        simp [Stmt.extendedGuard?, hg, Rewriter.mapBlock_eq]
    | _ => simp [Stmt.extendedGuard?]
  induction ss with
  | nil => rfl
  | cons s ss ih =>
    rw [Rewriter.mapStmts_cons, intoLastGuard?_cons, intoLastGuard?_cons, ih, hg]
    cases intoLastGuard? type added ss with
    | some later => rfl
    | none => cases s.extendedGuard? type added <;> rfl

theorem mapBlock_withGuarded (b : Block) :
    w.mapBlock (b.withGuarded type added) =
      (w.mapBlock b).withGuarded type (w.mapStmts added) := by
  cases h : intoLastGuard? type added b.statements with
  | none =>
    simp [Block.withGuarded, Rewriter.mapBlock_eq, intoLastGuard?_mapStmts, h, newGuard,
      Block.ofList]
  | some ss' => simp [Block.withGuarded, Rewriter.mapBlock_eq, intoLastGuard?_mapStmts, h]

end Guards

def Member.classSetup? : Member → Option Method
  | .method m => if m.kind = .classSetup then some m else none
  | .field _ | .block _ | .constructor _ => none

namespace ClassDecl

def setup? (c : ClassDecl) : Option Method :=
  (c.members.filterMap Member.classSetup?).head?

def setups (c : ClassDecl) : List Method :=
  c.members.filterMap Member.classSetup?

theorem setup?_eq_head? (c : ClassDecl) : c.setup? = c.setups.head? := rfl

/-- The first such method by its number is the first among the members, as long as numbers tell
members apart. -/
theorem classSetup?_eq_setup? {c : ClassDecl} (h : c.members.length ≤ UInt32.size) :
    c.classSetup? = c.setup? := by
  have hfind : ∀ ms : List Member, (ms.filterMap Member.classSetup?).head? =
      (ms.find? Member.isClassSetup).bind Member.classSetup? := by
    intro ms
    induction ms with
    | nil => rfl
    | cons m ms ih =>
      cases m with
      | method f =>
        by_cases hf : f.kind = .classSetup
        · simp [Member.classSetup?, Member.isClassSetup, hf]
        · rw [List.filterMap_cons_none (by simp [Member.classSetup?, hf]),
            List.find?_cons_of_neg (by simp [Member.isClassSetup, hf])]
          exact ih
      | _ =>
        rw [List.filterMap_cons_none rfl, List.find?_cons_of_neg (by simp [Member.isClassSetup])]
        exact ih
  rw [setup?, hfind, List.find?_eq_bind_findIdx?_getElem?, classSetup?, classSetupId?]
  cases hi : c.members.findIdx? Member.isClassSetup with
  | none => rfl
  | some i =>
    obtain ⟨hlt, hm, _⟩ := List.findIdx?_eq_some_iff_getElem.mp hi
    have hp : (MemberId.ofPosition i).position = i :=
      MemberId.position_ofPosition (Nat.lt_of_lt_of_le hlt h)
    rw [Option.map_some, Option.bind_some, Option.bind_some, member?, hp,
      List.getElem?_eq_getElem hlt]
    cases hc : c.members[i] with
    | method f =>
      rw [hc] at hm
      have hf : f.kind = .classSetup := by simpa [Member.isClassSetup] using hm
      simp [Member.classSetup?, hf]
    | _ => rw [hc] at hm; cases hm

def setupWith (o : Options) (c : ClassDecl) (statements : List Stmt) (m? : Option Method) :
    Option Method :=
  if statements = [] then m?
  else
    match m? with
    | some m => some { m with body := m.body.withGuarded c.type statements }
    | none => some (c.newSetup o statements)

section

variable {o : Options} {c : ClassDecl}

theorem setupWith_of_header {d : ClassDecl} (h : d.header = c.header) :
    d.setupWith o = c.setupWith o :=
  eq_of_header (setupWith o) (fun _ => rfl) h

theorem setupWith_append (ss ts : List Stmt) (m? : Option Method) :
    c.setupWith o ts (c.setupWith o ss m?) = c.setupWith o (ss ++ ts) m? := by
  by_cases hs : ss = []
  · simp [setupWith, hs]
  · by_cases ht : ts = []
    · simp [setupWith, hs, ht]
    · cases m? with
      | some m => simp [setupWith, hs, ht, withGuarded_append]
      | none =>
        have hg : intoLastGuard? c.type ts [newGuard c.type ss] =
            some [newGuard c.type (ss ++ ts)] := intoLastGuard?_concat []
        simp [setupWith, hs, ht, newSetup, Method.classSetup, Block.withGuarded, Block.ofList, hg]

theorem adjusted_setupWith (ss : List Stmt) (m? : Option Method) :
    (c.setupWith o ss (m?.map (Method.adjusted o.adjuster))).map (Method.adjusted o.adjuster) =
      (c.setupWith o ss m?).map (Method.adjusted o.adjuster) := by
  by_cases hs : ss = []
  · cases m? <;> simp [setupWith, hs, Method.adjusted]
  · cases m? <;> simp [setupWith, hs, Method.adjusted, mapBlock_withGuarded]

theorem setupWith_eq_none {ss : List Stmt} {m? : Option Method}
    (h : c.setupWith o ss m? = none) : m? = none := by
  by_cases hs : ss = []
  · simpa [setupWith, hs] using h
  · cases m? with
    | none => rfl
    | some m => simp [setupWith, hs] at h

variable (o) (c)

theorem setups_withRoles : (c.withRoles o).setups = c.setups :=
  filterMap_withRoles o c fun _ => rfl

theorem setups_withoutPreamble (side : Side) : (c.withoutPreamble side).setups = c.setups := by
  unfold setups withoutPreamble
  rw [List.filterMap_filterMap]
  congr 1
  funext m
  cases m with
  | field f => rfl
  | block b => by_cases hb : (b.side == side) = true <;> simp [unmoved, hb, Member.classSetup?]
  | constructor k => rfl
  | method f => rfl

theorem setups_lowered : (c.lowered o).setups = c.setups := by
  cases h : c.isInterface with
  | true => rw [lowered_of_interface o h]
  | false =>
    rw [lowered_eq o h, ← setups_withoutPreamble c .ofInstance, setups,
      filterMap_withEnclosingField _ fun _ _ => rfl]
    exact filterMap_map_lowered (fun _ => rfl) _ _

theorem setups_intoSetup? {type : TypeRef} {added : List Stmt} {ms ms' : List Member}
    (h : intoSetup? type added ms = some ms') :
    ∃ m later, ms.filterMap Member.classSetup? = m :: later ∧
      ms'.filterMap Member.classSetup? =
        { m with body := m.body.withGuarded type added } :: later := by
  induction ms generalizing ms' with
  | nil => cases h
  | cons d rest ih =>
    have skip (hd : d.classSetup? = none)
        (h : (intoSetup? type added rest).map (d :: ·) = some ms') :
        ∃ m later, (d :: rest).filterMap Member.classSetup? = m :: later ∧
          ms'.filterMap Member.classSetup? =
            { m with body := m.body.withGuarded type added } :: later := by
      obtain ⟨later, hl, rfl⟩ := Option.map_eq_some_iff.mp h
      rw [List.filterMap_cons_none hd, List.filterMap_cons_none hd]
      exact ih hl
    cases d with
    | method m =>
      by_cases hm : m.kind = .classSetup
      · simp only [intoSetup?, hm, if_true] at h
        cases Option.some.inj h
        refine ⟨m, rest.filterMap Member.classSetup?, ?_, ?_⟩
        · simp [Member.classSetup?, hm]
        · simp [Member.classSetup?, hm]
      · simp only [intoSetup?, hm, if_false] at h
        exact skip (by simp [Member.classSetup?, hm]) h
    | field f => exact skip rfl h
    | block b => exact skip rfl h
    | constructor k => exact skip rfl h

theorem filterMap_classSetup?_eq_nil {ms : List Member} (h : ∀ m ∈ ms, m.isClassSetup = false) :
    ms.filterMap Member.classSetup? = [] := by
  rw [List.filterMap_eq_nil_iff]
  intro m hm
  cases m with
  | method f => simpa [Member.isClassSetup, Member.classSetup?] using h _ hm
  | _ => rfl

theorem setups_withClassSetup :
    (c.withClassSetup o).setups =
      (c.setupWith o (c.preamble .ofClass) c.setup?).toList ++ c.setups.tail := by
  have hbare : (c.withoutPreamble .ofClass).setups = c.setups := setups_withoutPreamble c .ofClass
  unfold withClassSetup setupWith
  dsimp only
  split
  · rename_i hp
    rw [if_pos (List.isEmpty_iff.mp hp), setup?_eq_head?]
    cases c.setups <;> rfl
  · rename_i hp
    rw [if_neg fun hn => hp (List.isEmpty_iff.mpr hn), setup?_eq_head?, ← hbare]
    split
    · rename_i ms' hs
      obtain ⟨m, later, hm, hm'⟩ := setups_intoSetup? hs
      have hsetups : (c.withoutPreamble .ofClass).setups = m :: later := hm
      rw [hsetups]
      exact hm'
    · rename_i hs
      have hn : (c.withoutPreamble .ofClass).setups = [] :=
        filterMap_classSetup?_eq_nil (intoSetup?_eq_none_iff.mp hs)
      rw [hn, setups, members_push, List.filterMap_append]
      refine (congrArg (· ++ _) hn).trans ?_
      simp [Member.classSetup?, newSetup, Method.classSetup]

theorem setups_withRespelling :
    (c.withRespelling o).1.setups = c.setups.map (Method.adjusted o.adjuster) := by
  have hm : ∀ m : Member, (m.adjusted o.adjuster).classSetup? =
      m.classSetup?.map (Method.adjusted o.adjuster) := by
    intro m
    cases m with
    | method f =>
      by_cases hf : f.kind = .classSetup <;>
        simp [Member.adjusted, Member.classSetup?, Method.adjusted, hf]
    | _ => rfl
  rw [withRespelling_eq]
  unfold setups
  rw [List.filterMap_map, List.map_filterMap]
  congr 1
  funext m
  exact hm m

theorem preamble_ofClass_lowered : (c.lowered o).preamble .ofClass = c.preamble .ofClass := by
  cases h : c.isInterface with
  | true => rw [lowered_of_interface o h]
  | false =>
    have hm : ∀ m, (c.unmoved .ofInstance m).bind (c.moved .ofClass) = c.moved .ofClass m :=
      moved_of_unmoved_other (by decide)
    rw [preamble, moved_of_header (header_lowered o), lowered_eq o h,
      filterMap_withEnclosingField _ fun f hf => by simp [moved, Field.stays, hf]]
    rw [filterMap_map_lowered fun _ => rfl, List.filterMap_filterMap]
    exact congrArg (c.members.filterMap ·) (funext hm)

/-- The methods that a normalized class runs once: the first has taken the static preamble in, and
what comes after it is only adjusted. -/
theorem setups_normalized :
    (c.normalized o).setups =
      ((c.setupWith o (c.preamble .ofClass) c.setup?).toList ++ c.setups.tail).map
        (Method.adjusted o.adjuster) := by
  have hs : ((c.withRoles o).lowered o).setups = c.setups :=
    (setups_lowered o _).trans (setups_withRoles o c)
  have hs? : ((c.withRoles o).lowered o).setup? = c.setup? := congrArg List.head? hs
  rw [normalized, setups_withRespelling, initialized, setups_withClassSetup, hs, hs?,
    preamble_ofClass_lowered, preamble_withRoles,
    setupWith_of_header (d := (c.withRoles o).lowered o) (c := c) (by simp)]

theorem setup?_normalized :
    (c.normalized o).setup? =
      (c.setupWith o (c.preamble .ofClass) c.setup?).map (Method.adjusted o.adjuster) := by
  rw [setup?_eq_head?, setups_normalized]
  cases hw : c.setupWith o (c.preamble .ofClass) c.setup? with
  | some m => rfl
  | none =>
    have hn : c.setups = [] := List.head?_eq_none_iff.mp (setupWith_eq_none hw)
    rw [hn]
    rfl

end

end ClassDecl

end ExplicitInit
