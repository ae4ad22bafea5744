import ExplicitInit.Proofs.ConstructionOrder

namespace ExplicitInit

abbrev Scope (ν : Type) :=
  String → Option ν

/-- Of two parameters of one name the first is meant. -/
def Scope.ofParams {ν : Type} (params : List Param) (values : List ν) : Scope ν :=
  fun x => (params.zip values).findSome? fun (p, v) => if p.name = x then some v else none

inductive Action (ν : Type) where
  | assigned (field : FieldRef) (value : ν)
  | ran (statement : Stmt)

structure Performed (ν σ : Type) where
  actions : List (Action ν)
  scope : Scope ν
  state : σ
  ending : Ending

def Expr.name? : Expr → Option String
  | .name x _ _ => some x
  | _ => none

def Expr.Avoids (x : String) (e : Expr) : Prop :=
  ∀ n ∈ e.nodes, n.name? ≠ some x

/-- What expressions and statements do, with a state for all but local variables. -/
structure Interpreter (ν σ : Type) where
  evaluate : Expr → Scope ν → σ → ν × Scope ν × σ
  write : FieldRef → ν → σ → σ
  superclass : String → List ν → σ → σ
  execute : Stmt → Scope ν → σ → Scope ν × σ × Ending
  evaluate_local : ∀ {x : String} {span : Span} {L : Scope ν} {st : σ} {v : ν}, L x = some v →
    evaluate (.name x (some .localVar) span) L st = (v, L, st)
  evaluate_avoids : ∀ {x : String} {e : Expr} {L : Scope ν} {st : σ}, e.Avoids x →
    (evaluate e L st).2.1 x = L x

def Stmt.guarded : Stmt → List Stmt
  | .allocationGuard _ b _ => b.statements
  | s => [s.afterAllocation]

def Constructor.allocation? (k : Constructor) : Option (Invocation × List Stmt) :=
  match k.body.statements with
  | [] => none
  | s :: rest => s.allocation?.map fun i => (i, s.guarded ++ rest)

namespace Interpreter

variable {ν σ : Type} (I : Interpreter ν σ)

def evaluateAll : List Expr → Scope ν → σ → List ν × Scope ν × σ
  | [], L, st => ([], L, st)
  | e :: es, L, st =>
    let (v, L₁, st₁) := I.evaluate e L st
    let (vs, L₂, st₂) := evaluateAll es L₁ st₁
    (v :: vs, L₂, st₂)

def performStmt : Stmt → Scope ν → σ → Performed ν σ
  | .expr (.assign (.name _ (some (.field f)) _) e _) _, L, st =>
    let (v, L', st') := I.evaluate e L st
    ⟨[.assigned f v], L', I.write f v st', .completed⟩
  | s, L, st =>
    let (L', st', ending) := I.execute s L st
    ⟨[.ran s], L', st', ending⟩

def perform : List Stmt → Scope ν → σ → Performed ν σ
  | [], L, st => ⟨[], L, st, .completed⟩
  | s :: ss, L, st =>
    match I.performStmt s L st with
    | ⟨actions, L', st', .completed⟩ =>
      let later := perform ss L' st'
      { later with actions := actions ++ later.actions }
    | returned => returned

theorem length_evaluateAll (es : List Expr) (L : Scope ν) (st : σ) :
    (I.evaluateAll es L st).1.length = es.length := by
  induction es generalizing L st with
  | nil => rfl
  | cons e es ih => exact congrArg (· + 1) (ih _ _)

theorem evaluateAll_avoids {x : String} {es : List Expr} (h : ∀ e ∈ es, e.Avoids x) (L : Scope ν)
    (st : σ) : (I.evaluateAll es L st).2.1 x = L x := by
  induction es generalizing L st with
  | nil => rfl
  | cons e es ih =>
    have hes : ∀ e ∈ es, e.Avoids x := fun e he => h e (List.mem_cons_of_mem _ he)
    exact (ih hes _ _).trans (I.evaluate_avoids (h e List.mem_cons_self))

theorem evaluateAll_local {x : String} {L : Scope ν} {v : ν} (h : L x = some v) (es : List Expr)
    (st : σ) : (I.evaluateAll (.localVar x :: es) L st).1 = v :: (I.evaluateAll es L st).1 := by
  rw [evaluateAll, Expr.localVar, I.evaluate_local h]

theorem perform_assignment {x : String} {f : FieldRef} {L : Scope ν} {v : ν} (h : L x = some v)
    (ss : List Stmt) (st : σ) :
    (I.perform (.ofExpr (.assignment (.fieldName f) (.localVar x)) :: ss) L st).actions =
      .assigned f v :: (I.perform ss L (I.write f v st)).actions := by
  rw [perform, Stmt.ofExpr, Expr.assignment, Expr.fieldName, performStmt, Expr.localVar,
    I.evaluate_local h]
  rfl

end Interpreter

/-- Construction by a lowered constructor with given arguments, what is seen of it, and the states
before and after. Every allocation is taken to give an instance. -/
inductive Builds {ν σ : Type} (I : Interpreter ν σ) (all : List Constructor) :
    Constructor → List ν → σ → List (Action ν) → σ → Prop
  | superclass {k : Constructor} {args values : List ν} {i : Invocation} {rest : List Stmt}
      {L : Scope ν} {st st₁ : σ} (hn : args.length = k.params.length)
      (ha : k.allocation? = some (i, rest)) (hi : i.delegates = false)
      (he : I.evaluateAll i.args (.ofParams k.params args) st = (values, L, st₁)) :
    Builds I all k args st (I.perform rest L (I.superclass i.selector values st₁)).actions
      (I.perform rest L (I.superclass i.selector values st₁)).state
  | sibling {k next : Constructor} {args values : List ν} {i : Invocation} {rest : List Stmt}
      {L : Scope ν} {st st₁ st₂ : σ} {actions : List (Action ν)}
      (hn : args.length = k.params.length) (ha : k.allocation? = some (i, rest))
      (hi : i.delegates = true)
      (he : I.evaluateAll i.args (.ofParams k.params args) st = (values, L, st₁))
      (hm : next ∈ all) (hs : next.selector = i.selector)
      (hr : Builds I all next values st₁ actions st₂) :
    Builds I all k args st (actions ++ (I.perform rest L st₂).actions) (I.perform rest L st₂).state

namespace Constructor

/-- What a constructor does with the parameter `x`, which it takes first: it assigns it to the field
`f` as soon as the superclass has given the instance, or passes it on to a sibling, again first. -/
structure HandsOn (x : String) (f : FieldRef) (k : Constructor) : Prop where
  first : k.params.head?.map Param.name = some x
  assigns : ∀ i rest, k.allocation? = some (i, rest) → i.delegates = false →
    (∀ e ∈ i.args, e.Avoids x) ∧
      ∃ later, rest = .ofExpr (.assignment (.fieldName f) (.localVar x)) :: later
  forwards : ∀ i rest, k.allocation? = some (i, rest) → i.delegates = true →
    ∃ args, i.args = .localVar x :: args

theorem exists_allocation {k : Constructor} (h : k.isLowered = true) :
    ∃ i rest, k.allocation? = some (i, rest) ∧ k.opening? = some i := by
  obtain ⟨i, ho, ⟨_, _, _, hs⟩ | ⟨_, _, _, _, hs⟩⟩ := eq_of_isLowered h
  · exact ⟨i, _, by rw [allocation?, hs]; rfl, ho⟩
  · exact ⟨i, _, by rw [allocation?, hs]; rfl, ho⟩

theorem opening?_of_allocation? {k : Constructor} (h : k.isLowered = true) {i : Invocation}
    {rest : List Stmt} (ha : k.allocation? = some (i, rest)) : k.opening? = some i := by
  obtain ⟨j, rest', hj, ho⟩ := exists_allocation h
  obtain ⟨rfl, rfl⟩ := Prod.mk.inj (Option.some.inj (hj.symm.trans ha))
  exact ho

end Constructor

theorem ReachesDesignated.exists_target {all : List Constructor} {k : Constructor}
    (h : ReachesDesignated all k) {i : Invocation} (ho : k.opening? = some i)
    (hi : i.delegates = true) : ∃ target ∈ all, target.selector = i.selector := by
  have hsib : k.sibling? = some i.selector :=
    Constructor.sibling?_eq_some_iff.mpr ⟨i, ho, hi, rfl⟩
  cases h with
  | designated hnone =>
    rw [hsib] at hnone
    cases hnone
  | delegating hk hlast _ =>
    obtain ⟨hget, hselector⟩ := lastConstructor?_get hlast
    obtain rfl := Option.some.inj (hsib.symm.trans hk)
    exact ⟨_, List.mem_of_getElem? hget, hselector⟩

section Handing

variable {ν σ : Type} {I : Interpreter ν σ} {all : List Constructor} {x : String} {f : FieldRef}
  {k : Constructor}

theorem ofParams_first {params : List Param} (hx : params.head?.map Param.name = some x) (v : ν)
    (values : List ν) : Scope.ofParams params (v :: values) x = some v := by
  cases params with
  | nil => cases hx
  | cons p params =>
    have hp : p.name = x := by simpa using hx
    simp [Scope.ofParams, hp]

/-- Along any chain of siblings, the first thing seen is that the field gets the first argument. -/
theorem Builds.assigned_first (hall : ∀ k ∈ all, k.HandsOn x f) {v : ν} {args values : List ν}
    {st st' : σ} {actions : List (Action ν)} (h : Builds I all k values st actions st')
    (hk : k ∈ all) (hv : values = v :: args) : ∃ later, actions = .assigned f v :: later := by
  induction h generalizing args with
  | @superclass k _ values i rest L st st₁ hn ha hi he =>
    subst hv
    obtain ⟨havoid, later, rfl⟩ := (hall k hk).assigns i rest ha hi
    -- The arguments of the superclass leave the parameter as it is.
    have hL : L x = some v := by
      have havoids := I.evaluateAll_avoids havoid (.ofParams k.params (v :: args)) st
      rw [he] at havoids
      exact havoids.trans (ofParams_first (hall k hk).first v args)
    exact ⟨_, I.perform_assignment hL _ _⟩
  | @sibling k next _ values i rest L st st₁ st₂ acts hn ha hi he hm hs hr ih =>
    subst hv
    obtain ⟨passed, hargs⟩ := (hall k hk).forwards i rest ha hi
    have hfirst := I.evaluateAll_local (ofParams_first (hall k hk).first v args) passed st
    rw [← hargs, he] at hfirst
    obtain ⟨later, rfl⟩ := ih hm hfirst
    exact ⟨_, List.cons_append⟩

/-- Construction goes through along a chain that comes to a designated constructor, when each
invocation of a sibling passes as many arguments as that one takes. -/
theorem exists_builds (hlowered : ∀ k ∈ all, k.isLowered = true)
    (hpass : ∀ k ∈ all, ∀ i, k.opening? = some i → i.delegates = true →
      ∀ target ∈ all, target.selector = i.selector → i.args.length = target.params.length)
    (hr : ReachesDesignated all k) (hk : k ∈ all) {args : List ν}
    (hn : args.length = k.params.length) (st : σ) :
    ∃ actions st', Builds I all k args st actions st' := by
  induction hr generalizing args st with
  | @designated k hsib =>
    obtain ⟨i, rest, ha, ho⟩ := Constructor.exists_allocation (hlowered k hk)
    have hd : k.isDesignated = true := by simp [Constructor.isDesignated, hsib]
    exact ⟨_, _, .superclass hn ha (Constructor.isDesignated_iff.mp hd i ho) rfl⟩
  | @delegating k next selector position hsib hlast _ ih =>
    obtain ⟨hget, hselector⟩ := lastConstructor?_get hlast
    have hnext : next ∈ all := List.mem_of_getElem? hget
    obtain ⟨j, ho, hi, hs⟩ := Constructor.sibling?_eq_some_iff.mp hsib
    obtain ⟨i, rest, ha, ho'⟩ := Constructor.exists_allocation (hlowered k hk)
    obtain rfl := Option.some.inj (ho'.symm.trans ho)
    have hsame : next.selector = i.selector := hselector.trans hs.symm
    -- The sibling gets a value for each argument, so one for each of its parameters.
    have hlength : (I.evaluateAll i.args (.ofParams k.params args) st).1.length =
        next.params.length := by
      rw [I.length_evaluateAll, hpass k hk i ho hi next hnext hsame]
    obtain ⟨actions, st', hbuilds⟩ :=
      ih hnext hlength (I.evaluateAll i.args (.ofParams k.params args) st).2.2
    exact ⟨_, _, .sibling hn ha hi rfl hnext hsame hbuilds⟩

end Handing

end ExplicitInit
