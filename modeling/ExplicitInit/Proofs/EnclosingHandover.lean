import ExplicitInit.Proofs.KeptMembers
import ExplicitInit.Proofs.ParameterPassing
import ExplicitInit.Proofs.StringMeaning

namespace ExplicitInit

section Names

variable {x : String}

theorem Expr.name?_form (e : Expr) : e.form.name? = e.name? := by
  cases e <;> rfl

theorem Expr.name?_of_isRespelling {e : Expr} (h : e.isRespelling = true) : e.name? = none := by
  cases e with
  | unitString => rfl
  | formatString => rfl
  | _ => cases h

theorem avoids_respeller {e : Expr} (h : e.Avoids x) : (respeller.mapExpr e).Avoids x := by
  intro n hn
  obtain ⟨m, hm, hform⟩ | hr := mem_nodes_respeller hn
  · have hname : n.name? = m.name? := by
      rw [← Expr.name?_form, ← hform, Expr.name?_form]
    rw [hname]
    exact h m hm
  · rw [Expr.name?_of_isRespelling hr]
    exact (Option.some_ne_none x).symm

theorem avoids_adjuster (o : Options) {e : Expr} (h : e.Avoids x) :
    (o.adjuster.mapExpr e).Avoids x := by
  unfold Options.adjuster
  split
  · exact avoids_respeller h
  · rwa [identity_mapExpr]

theorem adjuster_mapExpr_name (o : Options) (b : Option Binding) (s : Span) :
    o.adjuster.mapExpr (.name x b s) = .name x b s := by
  unfold Options.adjuster
  split <;> rfl

theorem adjuster_mapExpr_assign (o : Options) (l r : Expr) (s : Span) :
    o.adjuster.mapExpr (.assign l r s) =
      .assign (o.adjuster.mapExpr l) (o.adjuster.mapExpr r) s := by
  unfold Options.adjuster
  split <;> rfl

end Names

namespace Constructor

variable {k : Constructor}

theorem lower_params (x : LoweringContext) (h : k.isLowered = false) (role : Role) :
    (k.lower x role).params = (k.withEnclosingParam x.enclosingParam).params := by
  simp only [lower, h, Bool.false_eq_true, ↓reduceIte]
  cases role with
  | designated => rfl
  | delegating =>
    dsimp only
    unfold delegatingForm
    split <;> rfl

theorem withEnclosingParam_params {p : Param} (h : ∀ q ∈ k.params, q.kind ≠ .enclosing) :
    (k.withEnclosingParam (some p)).params = p :: k.params := by
  have hn : k.enclosingParam? = none := by
    rw [enclosingParam?, List.find?_eq_none]
    intro q hq
    simpa using h q hq
  simp [withEnclosingParam, hn]

theorem avoids_ownInvocation {x : String} {i : Invocation}
    (h : ∀ n ∈ k.body.nodes, n.name? ≠ some x) (hi : k.ownInvocation? = some i) :
    ∀ e ∈ i.args, e.Avoids x := by
  intro e he n hn
  refine h n ?_
  rw [Block.nodes_eq, statements_of_ownInvocation? hi, List.flatMap_cons, Stmt.nodes,
    Expr.nodesAll_eq_flatMap]
  exact List.mem_append_left _ (List.mem_flatMap.mpr ⟨e, he, hn⟩)

theorem avoids_allocation (o : Options) {x : String}
    (hn : ∀ n ∈ k.body.nodes, n.name? ≠ some x) :
    ∀ e ∈ (o.adjuster.mapInvocation
      (k.ownInvocation?.getD (.toSuperclass o.defaultSelector []))).args, e.Avoids x := by
  intro e hm
  cases hi : k.ownInvocation? with
  | none =>
    rw [hi] at hm
    cases hm
  | some i =>
    rw [hi, Option.getD_some, Rewriter.mapInvocation, Rewriter.mapExprs_eq_map] at hm
    obtain ⟨e', he', rfl⟩ := List.mem_map.mp hm
    exact avoids_adjuster o (avoids_ownInvocation hn hi e' he')

theorem passes_eq_false {x : String} {i : Invocation} (h : ∀ e ∈ i.args, e.Avoids x) :
    i.passes x = false := by
  unfold Invocation.passes
  split
  · rename_i y b s later hargs
    rw [beq_eq_false_iff_ne]
    rintro rfl
    exact h (.name y b s) (by rw [hargs]; exact List.mem_cons_self) _ List.mem_cons_self rfl
  · rfl

end Constructor

namespace ClassDecl

/-- The constructors are in source form and leave the enclosing instance, and the name `x` that it
is to have, to normalization. They pass siblings as many arguments as these have parameters. -/
structure LeavesEnclosing (c : ClassDecl) (x : String) : Prop where
  unlowered : ∀ k ∈ c.constructors, k.isLowered = false
  params : ∀ k ∈ c.constructors, ∀ p ∈ k.params, p.kind ≠ .enclosing
  unnamed : ∀ k ∈ c.constructors, ∀ n ∈ k.body.nodes, n.name? ≠ some x
  arguments : ∀ k ∈ c.constructors, ∀ i, k.opening? = some i → i.delegates = true →
    ∀ target ∈ c.constructors, target.selector = i.selector →
      i.args.length = target.params.length

variable {o : Options} {c : ClassDecl} {link : EnclosingLink} {outer : List EnclosingLink}

theorem LeavesEnclosing.withImplicitConstructor {x : String} (h : c.LeavesEnclosing x)
    (hc : c.isInterface = false) : (c.withImplicitConstructor o).LeavesEnclosing x := by
  have hk := constructors_withImplicitConstructor o hc
  by_cases hnone : c.constructors = []
  · rw [if_pos hnone] at hk
    refine ⟨?_, ?_, ?_, ?_⟩ <;> rw [hk] <;> intro k hm <;> obtain rfl := List.mem_singleton.mp hm
    · rfl
    · exact nofun
    · intro n hn
      cases hn
    · intro i hi hd
      cases Option.some.inj hi
      cases hd
  · rw [if_neg hnone] at hk
    exact ⟨hk ▸ h.unlowered, hk ▸ h.params, hk ▸ h.unnamed, hk ▸ h.arguments⟩

section Constructors

variable {k : Constructor}

theorem normalConstructor_params (he : c.enclosing = link :: outer) (hl : k.isLowered = false)
    (hp : ∀ p ∈ k.params, p.kind ≠ .enclosing) :
    (c.normalConstructor o k).params =
      .enclosing link.param (enclosingPointer link) :: k.params := by
  have hx : (c.loweringContext o).enclosingParam =
      some (.enclosing link.param (enclosingPointer link)) := by
    simp [loweringContext, enclosingParam?, he]
  have hparams := Constructor.lower_params (k := k.classified) (c.loweringContext o) hl k.roleByBody
  rw [hx, Constructor.withEnclosingParam_params (k := k.classified) hp] at hparams
  exact hparams

theorem mapStmts_enclosingAssignment (he : c.enclosing = link :: outer) :
    o.adjuster.mapStmts c.enclosingAssignment =
      [.ofExpr (.assignment (.fieldName (c.enclosingField link)) (.localVar link.param))] := by
  have hassign : o.adjuster.mapExpr
        (.assignment (.fieldName (c.enclosingField link)) (.localVar link.param)) =
      .assignment (.fieldName (c.enclosingField link)) (.localVar link.param) := by
    simp only [Expr.assignment, Expr.fieldName, Expr.localVar, adjuster_mapExpr_assign,
      adjuster_mapExpr_name]
  simp only [enclosingAssignment, he, Stmt.ofExpr, Rewriter.mapStmts_cons, Rewriter.mapStmts_nil,
    Rewriter.mapStmt_expr, hassign]

theorem allocation?_normalConstructor_designated (he : c.enclosing = link :: outer)
    (hh : c.HoistsInto o k (c.normalConstructor o k)) (hl : k.isLowered = false)
    (hd : k.isDesignated = true) :
    ∃ later, (c.normalConstructor o k).allocation? =
      some (o.adjuster.mapInvocation (k.ownInvocation?.getD (.toSuperclass o.defaultSelector [])),
        .ofExpr (.assignment (.fieldName (c.enclosingField link)) (.localVar link.param)) ::
          later) := by
  obtain ⟨hbody, _⟩ := hh.designated hd hl
  rw [List.append_assoc, List.append_assoc, Rewriter.mapStmts_append,
    mapStmts_enclosingAssignment he] at hbody
  rw [Constructor.allocation?, hbody]
  exact ⟨_, rfl⟩

theorem args_forwarding (he : c.enclosing = link :: outer) {i : Invocation}
    (havoid : ∀ e ∈ i.args, e.Avoids link.param) :
    (o.adjuster.mapInvocation (i.forwarding c.enclosingParam?)).args =
      .localVar link.param :: o.adjuster.mapExprs i.args := by
  have hparam : c.enclosingParam? = some (.enclosing link.param (enclosingPointer link)) := by
    rw [enclosingParam?, he]
    rfl
  have hpasses : i.passes (Param.enclosing link.param (enclosingPointer link)).name = false :=
    Constructor.passes_eq_false havoid
  rw [hparam, Invocation.forwarding, hpasses, if_neg (by simp), Rewriter.mapInvocation]
  dsimp only [Param.enclosing]
  rw [Rewriter.mapExprs_cons, Expr.localVar, adjuster_mapExpr_name]

theorem allocation?_normalConstructor_delegating
    (hh : c.HoistsInto o k (c.normalConstructor o k)) (hl : k.isLowered = false)
    (hd : k.isDesignated = false) :
    ∃ i rest, k.ownInvocation? = some i ∧ i.delegates = true ∧
      (c.normalConstructor o k).allocation? =
        some (o.adjuster.mapInvocation (i.forwarding c.enclosingParam?), rest) := by
  obtain ⟨_, i, hi, hdelegates, hbody⟩ := hh.delegating hd hl
  have ha : ∃ rest, (c.normalConstructor o k).allocation? =
      some (o.adjuster.mapInvocation (i.forwarding c.enclosingParam?), rest) := by
    by_cases hs : k.ownStatements = []
    · rw [if_pos hs, Rewriter.mapStmts_returning_hook, Rewriter.mapExpr_toExpr] at hbody
      exact ⟨_, by rw [Constructor.allocation?, hbody]; rfl⟩
    · rw [if_neg hs, Rewriter.mapStmts_cons, Rewriter.mapStmt_allocationGuard] at hbody
      exact ⟨_, by rw [Constructor.allocation?, hbody]; rfl⟩
  obtain ⟨rest, ha⟩ := ha
  exact ⟨i, rest, hi, hdelegates, ha⟩

theorem exists_forwarding (he : c.enclosing = link :: outer)
    (hh : c.HoistsInto o k (c.normalConstructor o k)) (hl : k.isLowered = false)
    (hn : ∀ n ∈ k.body.nodes, n.name? ≠ some link.param)
    (hd : k.isDesignated = false) :
    ∃ i i' rest, k.opening? = some i ∧ i.delegates = true ∧
      (c.normalConstructor o k).allocation? = some (i', rest) ∧ i'.selector = i.selector ∧
      i'.args = .localVar link.param :: o.adjuster.mapExprs i.args := by
  obtain ⟨i, rest, hi, hdelegates, ha⟩ := allocation?_normalConstructor_delegating hh hl hd
  have hargs := args_forwarding (o := o) he (Constructor.avoids_ownInvocation hn hi)
  exact ⟨i, _, rest, (Constructor.opening?_of_source hl).trans hi, hdelegates, ha,
    Constructor.forwarding_selector i _, hargs⟩

theorem handsOn_normalConstructor (he : c.enclosing = link :: outer)
    (hh : c.HoistsInto o k (c.normalConstructor o k)) (hl : k.isLowered = false)
    (hp : ∀ p ∈ k.params, p.kind ≠ .enclosing)
    (hn : ∀ n ∈ k.body.nodes, n.name? ≠ some link.param) :
    (c.normalConstructor o k).HandsOn link.param (c.enclosingField link) := by
  have hx : (c.normalConstructor o k).params.head?.map Param.name = some link.param := by
    rw [normalConstructor_params he hl hp]
    rfl
  have hrole : ∀ i rest, (c.normalConstructor o k).allocation? = some (i, rest) →
      k.isDesignated = !i.delegates := by
    intro i rest ha
    rw [← normalConstructor_isDesignated o c]
    exact Constructor.isDesignated_of_opening?
      (Constructor.opening?_of_allocation? (normalConstructor_isLowered o c k) ha)
  refine ⟨hx, fun i rest ha hi => ?_, fun i rest ha hi => ?_⟩
  · have hd : k.isDesignated = true := by rw [hrole i rest ha, hi]; rfl
    obtain ⟨later, ha'⟩ := allocation?_normalConstructor_designated he hh hl hd
    obtain ⟨rfl, rfl⟩ := Prod.mk.inj (Option.some.inj (ha'.symm.trans ha))
    exact ⟨Constructor.avoids_allocation o hn, later, rfl⟩
  · have hd : k.isDesignated = false := by rw [hrole i rest ha, hi]; rfl
    obtain ⟨_, _, _, _, _, ha', _, hargs⟩ := exists_forwarding he hh hl hn hd
    obtain ⟨rfl, rfl⟩ := Prod.mk.inj (Option.some.inj (ha'.symm.trans ha))
    exact ⟨_, hargs⟩

theorem length_args_normalConstructor (he : c.enclosing = link :: outer)
    (hs : (c.withImplicitConstructor o).LeavesEnclosing link.param)
    (hh : c.HoistsInto o k (c.normalConstructor o k))
    (hk : k ∈ (c.withImplicitConstructor o).constructors) {i : Invocation}
    (ho : (c.normalConstructor o k).opening? = some i) (hi : i.delegates = true)
    {target : Constructor} (ht : target ∈ (c.withImplicitConstructor o).constructors)
    (hselector : target.selector = i.selector) :
    i.args.length = (c.normalConstructor o target).params.length := by
  have hd : k.isDesignated = false := by
    rw [← normalConstructor_isDesignated o c]
    exact Constructor.isDesignated_eq_false_iff.mpr ⟨i, ho, hi⟩
  obtain ⟨j, i', rest, hj, hjd, ha, hsame, hargs⟩ :=
    exists_forwarding he hh (hs.unlowered k hk) (hs.unnamed k hk) hd
  have ho' := Constructor.opening?_of_allocation? (normalConstructor_isLowered o c k) ha
  obtain rfl := Option.some.inj (ho'.symm.trans ho)
  have hlength : j.args.length = target.params.length :=
    hs.arguments k hk j hj hjd target ht (hselector.trans hsame)
  rw [hargs, normalConstructor_params he (hs.unlowered target ht) (hs.params target ht),
    Rewriter.mapExprs_eq_map, List.length_cons, List.length_map, hlength, List.length_cons]

end Constructors

section Fields

theorem map_name_of_keptAs {p? : Option Param} {ms ms' : List Member}
    (h : List.Forall₂ (Member.KeptAs p?) ms ms') :
    (ms'.filterMap Member.field?).map Field.name = (ms.filterMap Member.field?).map Field.name := by
  rw [List.map_filterMap, List.map_filterMap]
  refine filterMap_of_keptAs (fun hm => ?_) h
  cases hm with
  | field hf => obtain rfl | rfl := hf <;> rfl
  | _ => rfl

theorem fields_normalized (o : Options) (c : ClassDecl) :
    ∃ kept, (c.normalized o).fields = c.addedField.filterMap Member.field? ++ kept ∧
      kept.map Field.name = c.fields.map Field.name := by
  obtain ⟨rest, hmembers, hkept⟩ := members_normalized c o
  have hsetup : (c.addedSetup o).filterMap Member.field? = [] := by
    unfold addedSetup
    split <;> rfl
  refine ⟨rest.filterMap Member.field?, ?_, ?_⟩
  · rw [fields, hmembers, List.filterMap_append, List.filterMap_append, hsetup, List.append_nil]
  · rw [map_name_of_keptAs hkept, filterMap_filter_isConsumed fun _ => rfl,
      filterMap_withImplicitConstructor o c fun _ => rfl]
    rfl

end Fields

/-- How the enclosing instance comes through the constructors of a class to its field. -/
structure HandsOver (c : ClassDecl) (link : EnclosingLink) (c' : ClassDecl) : Prop where
  params : ∀ k ∈ c'.constructors, ∃ declared,
    k.params = .enclosing link.param (enclosingPointer link) :: declared ∧
      ∀ p ∈ declared, p.kind ≠ .enclosing
  arguments : ∀ k ∈ c'.constructors, ∀ i, k.opening? = some i → i.delegates = true →
    (∃ args, i.args = .localVar link.param :: args) ∧
      (∃ target ∈ c'.constructors, target.selector = i.selector) ∧
      ∀ target ∈ c'.constructors, target.selector = i.selector →
        i.args.length = target.params.length
  field : match c.field? link.field with
    | some _ => c'.fields.map Field.name = c.fields.map Field.name
    | none => ∃ kept, kept.map Field.name = c.fields.map Field.name ∧
      c'.fields =
        { Field.ofName link.field (enclosingPointer link) with isSynthetic := true } :: kept
  /-- Each construction goes through, and all that is seen of it comes after the assignment. -/
  construction : ∀ {ν σ : Type} (I : Interpreter ν σ), ∀ k ∈ c'.constructors,
    ∀ (v : ν) (args : List ν) (st : σ), args.length + 1 = k.params.length →
      (∃ actions st', Builds I c'.constructors k (v :: args) st actions st') ∧
      ∀ actions st', Builds I c'.constructors k (v :: args) st actions st' →
        ∃ later, actions = .assigned (c.enclosingField link) v :: later

section Normalized

variable (hi : c.isInterface = false) (hb : c.boundaryFault? = none)
  (he : c.enclosing = link :: outer) (hs : (c.withImplicitConstructor o).LeavesEnclosing link.param)

include hi he hs

theorem params_normalized {k' : Constructor} (hk' : k' ∈ (c.normalized o).constructors) :
    ∃ declared, k'.params = .enclosing link.param (enclosingPointer link) :: declared ∧
      ∀ p ∈ declared, p.kind ≠ .enclosing := by
  obtain ⟨k, hk, rfl⟩ := (mem_constructors_normalized o hi).mp hk'
  have hp := hs.params k hk
  exact ⟨k.params, normalConstructor_params he (hs.unlowered k hk) hp, hp⟩

include hb

theorem handsOn_normalized {k' : Constructor} (hk' : k' ∈ (c.normalized o).constructors) :
    k'.HandsOn link.param (c.enclosingField link) := by
  obtain ⟨k, hk, rfl⟩ := (mem_constructors_normalized o hi).mp hk'
  exact handsOn_normalConstructor he (normalConstructor_hoistsInto hi hb hk) (hs.unlowered k hk)
    (hs.params k hk) (hs.unnamed k hk)

theorem length_args_normalized {k' : Constructor} (hk' : k' ∈ (c.normalized o).constructors)
    {i : Invocation} (ho : k'.opening? = some i) (hdel : i.delegates = true)
    {target' : Constructor} (ht' : target' ∈ (c.normalized o).constructors)
    (hselector : target'.selector = i.selector) : i.args.length = target'.params.length := by
  obtain ⟨k, hk, rfl⟩ := (mem_constructors_normalized o hi).mp hk'
  obtain ⟨target, ht, rfl⟩ := (mem_constructors_normalized o hi).mp ht'
  exact length_args_normalConstructor he hs (normalConstructor_hoistsInto hi hb hk) hk ho hdel ht
    ((normalConstructor_selector o c target).symm.trans hselector)

end Normalized

/-- Normalization of an inner class hands the enclosing instance over by any chain of siblings. -/
theorem normalize_handsOver {c' : ClassDecl} {s : Summary} (hc : c.kind = .ordinary)
    (he : c.enclosing = link :: outer) (hs : c.LeavesEnclosing link.param)
    (h : c.normalize o = .ok (c', s)) : c.HandsOver link c' := by
  obtain ⟨hf, rfl, _⟩ := normalize_eq_ok_iff.mp h
  obtain ⟨_, hd, hb, _⟩ := fault?_eq_none_iff.mp hf
  have hi : c.isInterface = false := isInterface_eq_false_iff.mpr hc
  have hfull : (c.withImplicitConstructor o).LeavesEnclosing link.param :=
    hs.withImplicitConstructor hi
  have hreaches : ∀ k ∈ (c.normalized o).constructors,
      ReachesDesignated (c.normalized o).constructors k := fun k hk =>
    reachesDesignated_of_delegationFault? ((delegationFault?_normalized o hi).trans hd) hk
  refine ⟨fun k hk => params_normalized hi he hfull hk, ?_, ?_, ?_⟩
  · intro k hk i ho hdel
    obtain ⟨i', rest, ha, ho'⟩ := Constructor.exists_allocation (isLowered_normalized o hi hk)
    obtain rfl := Option.some.inj (ho'.symm.trans ho)
    exact ⟨(handsOn_normalized hi hb he hfull hk).forwards i' rest ha hdel,
      (hreaches k hk).exists_target ho hdel,
      fun target ht => length_args_normalized hi hb he hfull hk ho hdel ht⟩
  · obtain ⟨kept, hfields, hnames⟩ := fields_normalized o c
    rw [addedField, he] at hfields
    split
    · rename_i f hfield
      rw [hfields]
      simpa [hfield] using hnames
    · rename_i hfield
      refine ⟨kept, hnames, ?_⟩
      rw [hfields]
      simp [hi, hfield, Member.field?]
  · intro ν σ I k hk v args st hlength
    have hn : (v :: args).length = k.params.length := hlength
    have hlowered : ∀ k ∈ (c.normalized o).constructors, k.isLowered = true :=
      fun k hk => isLowered_normalized o hi hk
    have hpass : ∀ k ∈ (c.normalized o).constructors, ∀ i, k.opening? = some i →
        i.delegates = true → ∀ target ∈ (c.normalized o).constructors,
          target.selector = i.selector → i.args.length = target.params.length :=
      fun k hk i ho hdel target ht => length_args_normalized hi hb he hfull hk ho hdel ht
    refine ⟨exists_builds hlowered hpass (hreaches k hk) hk hn st, fun actions st' hbuilds => ?_⟩
    exact hbuilds.assigned_first (fun k hk => handsOn_normalized hi hb he hfull hk) hk rfl

def hinge : ClassDecl where
  type := ⟨⟨1⟩, "Hinge"⟩
  kind := .ordinary
  superclass := none
  enclosing := [.to ⟨⟨2⟩, "Door"⟩]
  members := [
    .field { Field.ofName "angle" "int" with initializer := some (.int 90 .synthetic) },
    .constructor (.ofBody "init" [] [.toSuperclass "init" [.ofText "oiled"],
      .ofExpr (.ofText "hung")]),
    .constructor (.ofBody "initWithAngle:" [.declared "angle" "int"] [.toSibling "init" []]),
    .constructor (.ofBody "initWithAngle:limit:" [.declared "angle" "int", .declared "limit" "int"]
      [.toSibling "initWithAngle:" [.localVar "angle"], .ofExpr (.localVar "limit")])]
  span := .synthetic

def localReads (ν : Type) [Inhabited ν] : Interpreter ν Unit where
  evaluate
    | .name x (some .localVar) _, L, st => ((L x).getD default, L, st)
    | _, L, st => (default, L, st)
  write _ _ st := st
  superclass _ _ st := st
  execute _ L st := (L, st, .completed)
  evaluate_local h := by simp [h]
  evaluate_avoids _ := by split <;> rfl

theorem leavesEnclosing_hinge : hinge.LeavesEnclosing "outer$" :=
  ⟨by decide, by decide, by decide, by decide⟩

theorem normalize_handsOver_hinge :
    hinge.kind = .ordinary ∧ hinge.enclosing = [.to ⟨⟨2⟩, "Door"⟩] ∧
      hinge.LeavesEnclosing "outer$" ∧
      ∃ c' s, hinge.normalize .standard = .ok (c', s) ∧
        hinge.HandsOver (.to ⟨⟨2⟩, "Door"⟩) c' ∧
        ∃ k ∈ c'.constructors, k.selector = "initWithAngle:limit:" ∧ ∃ later,
          Builds (localReads Nat) c'.constructors k [7, 1, 2] ()
            (.assigned (.ofInstance ⟨⟨1⟩, "Hinge"⟩ "this$0") 7 :: later) () := by
  have h : hinge.normalize .standard =
      .ok (hinge.normalized .standard, hinge.changes .standard) :=
    normalize_eq_ok_iff.mpr ⟨by decide +kernel, rfl, rfl⟩
  have hover := normalize_handsOver rfl rfl leavesEnclosing_hinge h
  obtain ⟨k, hget⟩ : ∃ k, hinge.constructors[2]? = some k := ⟨_, rfl⟩
  have hk : k ∈ hinge.constructors := List.mem_of_getElem? hget
  have hk' : hinge.normalConstructor .standard k ∈ (hinge.normalized .standard).constructors :=
    (mem_constructors_normalized .standard rfl).mpr ⟨k, hk, rfl⟩
  have hn : [1, 2].length + 1 = (hinge.normalConstructor .standard k).params.length := by
    rw [normalConstructor_params rfl (leavesEnclosing_hinge.unlowered k hk)
      (leavesEnclosing_hinge.params k hk)]
    cases hget
    rfl
  obtain ⟨⟨actions, st', hbuilds⟩, hfirst⟩ :=
    hover.construction (localReads Nat) _ hk' 7 [1, 2] () hn
  obtain ⟨later, rfl⟩ := hfirst _ _ hbuilds
  refine ⟨rfl, rfl, leavesEnclosing_hinge, _, _, h, hover, _, hk', ?_, later, hbuilds⟩
  rw [normalConstructor_selector]
  cases hget
  rfl

end ClassDecl

end ExplicitInit
