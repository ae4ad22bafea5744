import ExplicitInit.Proofs.EnclosingReads
import ExplicitInit.Proofs.Objects
import ExplicitInit.Proofs.Parts

namespace ExplicitInit

/-- What the meaning of trees leaves open: the instance itself, how forms run their parts, and what
methods do with a message. -/
structure Semantics (ν σ : Type) where
  self : ν
  plan : Node → Plan ν σ
  method : Message ν → Run ν σ

/-- Whether a node neither reads or writes a field of an instance nor sends a message, and is no
name of an enclosing instance. What is assigned matters only where it is no name and no access. -/
def Node.isPlain : Node → Bool
  | .expr (.name _ (some (.field ⟨_, _, false⟩)) _) | .expr (.name _ (some (.enclosing _)) _)
  | .expr (.fieldAccess _ ⟨_, _, false⟩ _) | .expr (.assign (.name ..) _ _)
  | .expr (.assign (.fieldAccess ..) _ _) | .expr (.call (some _) _ _ _ _)
  | .expr (.call none _ _ (some ⟨_, false⟩) _) => false
  | _ => true

/-- How names and calls without a receiver are understood: the object that has the members of a
type, and the instance that a name for the enclosing instance of a type means. -/
structure View (ν : Type) where
  holder : TypeRef → ν
  enclosing? : TypeRef → Option ν

namespace Semantics

variable {ν σ : Type} [DecidableEq ν] (w : Semantics ν σ) (v : View ν)

@[grind =] def eval : Node → Run ν σ
  | .expr (.name _ (some (.field ⟨owner, f, false⟩)) _) =>
    (Run.give (v.holder owner)).readField owner f
  | .expr (.name x (some (.enclosing type)) s) =>
    match v.enclosing? type with
    | some object => .give object
    | none => (w.plan (.expr (.name x (some (.enclosing type)) s))).run []
  | .expr (.fieldAccess r ⟨owner, f, false⟩ _) => (eval (.expr r)).readField owner f
  | .expr (.assign (.name _ (some (.field ⟨owner, f, false⟩)) _) r _) =>
    (Run.give (v.holder owner)).writeField owner f (eval (.expr r))
  | .expr (.assign (.fieldAccess o ⟨owner, f, false⟩ _) r _) =>
    (eval (.expr o)).writeField owner f (eval (.expr r))
  | .expr (.assign (.name x b s) r t) =>
    (w.plan (.expr (.assign (.name x b s) .hole t))).run [eval (.expr r)]
  | .expr (.assign (.fieldAccess o f s) r t) =>
    (w.plan (.expr (.assign (.fieldAccess .hole f s) .hole t))).run [eval (.expr o), eval (.expr r)]
  | .expr (.call (some r) selector args _ _) =>
    .send w.method (eval (.expr r)) selector (args.attach.map fun x => eval (.expr x.1))
  | .expr (.call none selector args (some ⟨owner, false⟩) _) =>
    .send w.method (.give (v.holder owner)) selector (args.attach.map fun x => eval (.expr x.1))
  | n => (w.plan n.form).run (n.parts.attach.map fun x => eval x.1)
termination_by n => sizeOf n
decreasing_by
  all_goals first
    | (simp; omega)
    | exact Node.sizeOf_argument x.2
    | exact Node.sizeOf_part x.2

theorem eval_name (x : String) (owner : TypeRef) (f : String) (s : Span) :
    w.eval v (.expr (.name x (some (.field ⟨owner, f, false⟩)) s)) =
      (Run.give (v.holder owner)).readField owner f := by
  rw [eval]

theorem eval_enclosing (x : String) (type : TypeRef) (s : Span) :
    w.eval v (.expr (.name x (some (.enclosing type)) s)) =
      ((v.enclosing? type).map Run.give).getD
        ((w.plan (.expr (.name x (some (.enclosing type)) s))).run []) := by
  rw [eval]
  cases v.enclosing? type <;> rfl

theorem eval_access (r : Expr) (owner : TypeRef) (f : String) (s : Span) :
    w.eval v (.expr (.fieldAccess r ⟨owner, f, false⟩ s)) =
      (w.eval v (.expr r)).readField owner f := by
  rw [eval]

theorem eval_call (r : Expr) (selector : String) (args : List Expr) (m : Option MethodRef)
    (s : Span) : w.eval v (.expr (.call (some r) selector args m s)) =
      .send w.method (w.eval v (.expr r)) selector (args.map fun a => w.eval v (.expr a)) := by
  rw [eval]
  simp

theorem eval_implicitCall (selector : String) (args : List Expr) (owner : TypeRef) (s : Span) :
    w.eval v (.expr (.call none selector args (some ⟨owner, false⟩) s)) =
      .send w.method (.give (v.holder owner)) selector
        (args.map fun a => w.eval v (.expr a)) := by
  rw [eval]
  simp

theorem eval_assignName (x : String) (owner : TypeRef) (f : String) (s : Span) (r : Expr)
    (t : Span) : w.eval v (.expr (.assign (.name x (some (.field ⟨owner, f, false⟩)) s) r t)) =
      (Run.give (v.holder owner)).writeField owner f (w.eval v (.expr r)) := by
  rw [eval]

theorem eval_assignAccess (o : Expr) (owner : TypeRef) (f : String) (s : Span) (r : Expr)
    (t : Span) : w.eval v (.expr (.assign (.fieldAccess o ⟨owner, f, false⟩ s) r t)) =
      (w.eval v (.expr o)).writeField owner f (w.eval v (.expr r)) := by
  rw [eval]

theorem eval_assignOtherName (x : String) (b : Option Binding) (s : Span) (r : Expr) (t : Span)
    (hb : ∀ owner f, b ≠ some (.field ⟨owner, f, false⟩)) :
    w.eval v (.expr (.assign (.name x b s) r t)) =
      (w.plan (.expr (.assign (.name x b s) .hole t))).run [w.eval v (.expr r)] := by
  rw [eval]
  intro owner f h
  exact hb owner f h

theorem eval_assignOtherAccess (o : Expr) (owner : TypeRef) (f : String) (s : Span) (r : Expr)
    (t : Span) : w.eval v (.expr (.assign (.fieldAccess o ⟨owner, f, true⟩ s) r t)) =
      (w.plan (.expr (.assign (.fieldAccess .hole ⟨owner, f, true⟩ s) .hole t))).run
        [w.eval v (.expr o), w.eval v (.expr r)] := by
  rw [eval]
  simp

theorem eval_plain {n : Node} (hn : n.isPlain = true) :
    w.eval v n = (w.plan n.form).run (n.parts.map (w.eval v)) := by
  unfold eval
  split
  all_goals first | cases hn | rw [List.map_attach_eq_pmap, List.pmap_eq_map]

end Semantics

def linkFields (owner : TypeRef) : List EnclosingLink → List FieldRef
  | [] => []
  | link :: links => .ofInstance owner link.field :: linkFields link.type links

/-- Going outward from an object, the field of each link holds the next enclosing instance. -/
def Links {ν : Type} (fields : ν → TypeId → String → ν) :
    (here : ν) → (owner : TypeRef) → List EnclosingLink → List ν → Prop
  | _, _, [], [] => True
  | here, owner, link :: links, outer :: outers =>
    fields here owner.id link.field = outer ∧ Links fields outer link.type links outers
  | _, _, _, _ => False

def instanceOf? {ν : Type} (target : TypeRef) : List EnclosingLink → List ν → Option ν
  | link :: links, outer :: outers =>
    if link.type.same target then some outer else instanceOf? target links outers
  | _, _ => none

namespace View

variable {ν : Type}

/-- In the source, a member of an enclosing type belongs to the first enclosing instance of that
type, unless the class itself has it or inherits it from its superclass. -/
def ofSource (c : ClassDecl) (self : ν) (outers : List ν) : View ν where
  holder type :=
    if c.type.same type || c.superclass.any (·.same type) then self
    else (instanceOf? type c.enclosing outers).getD self
  enclosing? type := instanceOf? type c.enclosing outers

def explicit (self : ν) : View ν where
  holder _ := self
  enclosing? _ := none

end View

section Links

variable {ν σ : Type} [DecidableEq ν] {w : Semantics ν σ} {st : ObjectState ν σ}

theorem Links.withField {here object new : ν} {owner type : TypeRef} {name : String}
    {links : List EnclosingLink} {outers : List ν} (h : Links st.fields here owner links outers)
    (hf : ∀ g ∈ linkFields owner links, ¬(g.owner.id = type.id ∧ g.name = name)) :
    Links (st.withField object type name new).fields here owner links outers := by
  induction links generalizing here owner outers with
  | nil => cases outers <;> exact h
  | cons link links ih =>
    cases outers with
    | nil => exact h
    | cons outer outers =>
      obtain ⟨hg, hrest⟩ := h
      obtain ⟨hl, hls⟩ := List.forall_mem_cons.mp hf
      refine ⟨?_, ih hrest hls⟩
      rw [← hg]
      exact if_neg fun hx => hl hx.2

theorem eval_reachFrom? {target owner : TypeRef} {here : Expr} {object : ν}
    {links : List EnclosingLink} {outers : List ν}
    (hh : w.eval (.explicit w.self) (.expr here) st = (object, st))
    (h : Links st.fields object owner links outers) :
    (ClassDecl.reachFrom? target here owner links = none ∧
      (if owner.same target then some object else instanceOf? target links outers) = none) ∨
    ∃ path found, ClassDecl.reachFrom? target here owner links = some path ∧
      (if owner.same target then some object else instanceOf? target links outers) = some found ∧
      w.eval (.explicit w.self) (.expr path) st = (found, st) := by
  -- Path and object go outward together, so both searches stop at the same link.
  induction links generalizing here object owner outers with
  | nil =>
    cases outers with
    | nil =>
      by_cases ho : owner.same target = true
      · exact .inr ⟨here, object, by simp [ClassDecl.reachFrom?, ho], by simp [ho], hh⟩
      · exact .inl ⟨by simp [ClassDecl.reachFrom?, ho], by simp [ho, instanceOf?]⟩
    | cons outer outers => cases h
  | cons link links ih =>
    cases outers with
    | nil => cases h
    | cons outer outers =>
      obtain ⟨hg, hrest⟩ := h
      by_cases ho : owner.same target = true
      · exact .inr ⟨here, object, by simp [ClassDecl.reachFrom?, ho], by simp [ho], hh⟩
      · have hnext : w.eval (.explicit w.self)
            (.expr (.access here (.ofInstance owner link.field))) st = (outer, st) := by
          rw [Expr.access, FieldRef.ofInstance, Semantics.eval_access, Run.readField, hh]
          exact Prod.ext hg rfl
        simpa [ClassDecl.reachFrom?, ho, instanceOf?] using ih hnext hrest

end Links

namespace ClassDecl

variable {ν σ : Type}

def IsLinked (c : ClassDecl) (self : ν) (outers : List ν) (st : ObjectState ν σ) : Prop :=
  Links st.fields self c.type c.enclosing outers

def assignsLink (c : ClassDecl) : Expr → Bool
  | .assign (.name _ (some (.field f)) _) _ _ | .assign (.fieldAccess _ f _) _ _ =>
    !f.isStatic &&
      (linkFields c.type c.enclosing).any fun g => g.owner.same f.owner && g.name == f.name
  | .assign (.name _ (some (.enclosing type)) _) _ _ => c.enclosing.any (·.type.same type)
  | _ => false

/-- Neither the class nor its superclass is one of the enclosing types. -/
def IsOutsideItself (c : ClassDecl) : Prop :=
  ∀ link ∈ c.enclosing, link.type.id ≠ c.type.id ∧
    ∀ super, c.superclass = some super → link.type.id ≠ super.id

theorem IsOutsideItself.encloses {c : ClassDecl} (hc : c.IsOutsideItself) :
    c.encloses c.type = false :=
  encloses_eq_false_iff.mpr fun link hl => (hc link hl).1

variable {w : Semantics ν σ} {c : ClassDecl} {outers : List ν} {st : ObjectState ν σ}

theorem instanceOf?_eq_none {target : TypeRef} {links : List EnclosingLink}
    (h : ∀ link ∈ links, link.type.id ≠ target.id) (os : List ν) :
    instanceOf? target links os = none := by
  induction links generalizing os with
  | nil => rfl
  | cons link links ih =>
    obtain ⟨hl, hls⟩ := List.forall_mem_cons.mp h
    cases os with
    | nil => rfl
    | cons o os =>
      have hs : ¬link.type.same target = true := TypeRef.same_iff.not.mpr hl
      simp only [instanceOf?, if_neg hs, ih hls]

theorem holder_ofSource (hc : c.IsOutsideItself) (self : ν) (type : TypeRef) :
    (View.ofSource c self outers).holder type =
      (instanceOf? type c.enclosing outers).getD self := by
  simp only [View.ofSource]
  split
  · rename_i ho
    have hn : ∀ link ∈ c.enclosing, link.type.id ≠ type.id := by
      intro link hl
      obtain ⟨hown, hsuper⟩ := hc link hl
      rcases Bool.or_eq_true_iff.mp ho with ht | ht
      · exact TypeRef.same_iff.mp ht ▸ hown
      · obtain ⟨super, hs, ht⟩ := (Option.any_eq_true _ _).mp ht
        exact TypeRef.same_iff.mp ht ▸ hsuper super hs
    rw [instanceOf?_eq_none hn]
    rfl
  · rfl

variable [DecidableEq ν]

/-- The path that takes the place of a read leads to the enclosing instance that is read. -/
theorem eval_reach? (h : c.IsLinked w.self outers st) (target : TypeRef) :
    (c.reach? target = none ∧ instanceOf? target c.enclosing outers = none) ∨
    ∃ path found, c.reach? target = some path ∧
      instanceOf? target c.enclosing outers = some found ∧
      w.eval (.explicit w.self) (.expr path) st = (found, st) := by
  unfold IsLinked at h
  unfold reach? reachThrough?
  cases hc : c.enclosing with
  | nil =>
    rw [hc] at h
    cases outers with
    | nil => exact .inl ⟨rfl, rfl⟩
    | cons o os => cases h
  | cons link links =>
    rw [hc] at h
    cases outers with
    | nil => cases h
    | cons outer outers =>
      obtain ⟨hg, hrest⟩ := h
      have hhere : w.eval (.explicit w.self) (.expr (.fieldName (c.enclosingField link))) st =
          (outer, st) := by
        rw [Expr.fieldName, enclosingField, FieldRef.ofInstance, Semantics.eval_name, Run.readField]
        exact Prod.ext hg rfl
      exact eval_reachFrom? hhere hrest

end ClassDecl

end ExplicitInit
