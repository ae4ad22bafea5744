import ExplicitInit.Class.Lookup
import Mathlib.Logic.Basic

namespace ExplicitInit

/-- The way from the root of a tree to a mention of a type, by the numbers of the parts. -/
abbrev Place := List Nat

/-- What becomes of the mention of a type in each place. -/
abbrev TypeChange := Place → TypeRef → TypeRef

namespace TypeChange

def below (g : TypeChange) (i : Nat) : TypeChange :=
  fun p => g (i :: p)

def always (f : TypeRef → TypeRef) : TypeChange :=
  fun _ => f

@[simp] theorem below_always (f : TypeRef → TypeRef) (i : Nat) :
    (always f).below i = always f := rfl

@[simp] theorem always_apply (f : TypeRef → TypeRef) (p : Place) : always f p = f := rfl

end TypeChange

def Place.look (own : TypeRef) (part : Nat → Place → TypeRef) : Place → TypeRef
  | [] => own
  | i :: p => part i p

def FieldRef.changed (f : TypeRef → TypeRef) (r : FieldRef) : FieldRef :=
  { r with owner := f r.owner }

def MethodRef.changed (f : TypeRef → TypeRef) (m : MethodRef) : MethodRef :=
  { m with owner := f m.owner }

namespace Binding

def changed (f : TypeRef → TypeRef) : Binding → Binding
  | localVar => localVar
  | field r => field (r.changed f)
  | type t => type (f t)
  | enclosing t => enclosing (f t)

def mention : Binding → TypeRef
  | localVar => default
  | field r => r.owner
  | type t | enclosing t => t

end Binding

section Definitions

mutual

def Expr.changed (g : TypeChange) : Expr → Expr
  | .int value s => .int value s
  | .float value s => .float value s
  | .bool value s => .bool value s
  | .char unit s => .char unit s
  | .null s => .null s
  | .string units s => .string units s
  | .name x binding s => .name x (binding.map (Binding.changed (g []))) s
  | .self s => .self s
  | .fieldAccess r f s => .fieldAccess (r.changed (g.below 0)) (f.changed (g [])) s
  | .assign l r s => .assign (l.changed (g.below 0)) (r.changed (g.below 1)) s
  | .binary op l r s => .binary op (l.changed (g.below 0)) (r.changed (g.below 1)) s
  | .call none selector args method s =>
    .call none selector (Expr.changedAll (g.below 1) args) (method.map (MethodRef.changed (g []))) s
  | .call (some r) selector args method s =>
    .call (some (r.changed (g.below 0))) selector (Expr.changedAll (g.below 1) args)
      (method.map (MethodRef.changed (g []))) s
  | .new type selector args none s =>
    .new (g [] type) selector (Expr.changedAll (g.below 1) args) none s
  | .new type selector args (some o) s =>
    .new (g [] type) selector (Expr.changedAll (g.below 1) args) (some (o.changed (g.below 0))) s
  | .array type elements s => .array type (Expr.changedAll (g.below 1) elements) s
  | .allocate callee selector args s =>
    .allocate callee selector (Expr.changedAll (g.below 1) args) s
  | .hook procedure a s => .hook procedure (a.changed (g.below 0)) s
  | .unitString units s => .unitString units s
  | .formatString format args s => .formatString format (Expr.changedAll (g.below 1) args) s

def Expr.changedAll (g : TypeChange) : List Expr → List Expr
  | [] => []
  | e :: es => e.changed (g.below 0) :: Expr.changedAll (g.below 1) es

end

def mentionOf {α : Type} (type : α → TypeRef) (a : Option α) : TypeRef :=
  a.elim default type

mutual

def Expr.mention : Expr → Place → TypeRef
  | .int .. | .float .. | .bool .. | .char .. | .null .. | .string .. | .self ..
  | .unitString .. => default
  | .name _ b _ => Place.look (mentionOf Binding.mention b) default
  | .fieldAccess r f _ => Place.look f.owner fun _ => r.mention
  | .assign l r _ | .binary _ l r _ =>
    Place.look default fun
      | 0 => l.mention
      | _ => r.mention
  | .call none _ args m _ =>
    Place.look (mentionOf MethodRef.owner m) fun _ => Expr.mentionAll args
  | .call (some r) _ args m _ =>
    Place.look (mentionOf MethodRef.owner m) fun
      | 0 => r.mention
      | _ => Expr.mentionAll args
  | .new type _ args none _ => Place.look type fun _ => Expr.mentionAll args
  | .new type _ args (some o) _ =>
    Place.look type fun
      | 0 => o.mention
      | _ => Expr.mentionAll args
  | .array _ args _ | .allocate _ _ args _ | .formatString _ args _ =>
    Place.look default fun _ => Expr.mentionAll args
  | .hook _ a _ => Place.look default fun _ => a.mention

def Expr.mentionAll : List Expr → Place → TypeRef
  | [] => default
  | e :: es =>
    Place.look default fun
      | 0 => e.mention
      | _ => Expr.mentionAll es

end

def Invocation.changed (g : TypeChange) (i : Invocation) : Invocation :=
  { i with args := Expr.changedAll g i.args }

mutual

def Stmt.changed (g : TypeChange) : Stmt → Stmt
  | .expr e s => .expr (e.changed (g.below 0)) s
  | .block b => .block (b.changed (g.below 0))
  | .declare x type e s => .declare x type (e.map (Expr.changed (g.below 0))) s
  | .ite c t none s => .ite (c.changed (g.below 0)) (t.changed (g.below 1)) none s
  | .ite c t (some e) s =>
    .ite (c.changed (g.below 0)) (t.changed (g.below 1)) (some (e.changed (g.below 2))) s
  | .ret e s => .ret (e.map (Expr.changed (g.below 0))) s
  | .invoke i => .invoke (i.changed (g.below 0))
  | .allocationGuard i b s =>
    .allocationGuard (i.changed (g.below 0)) (b.changed (g.below 1)) s
  | .classGuard type b s => .classGuard (g [] type) (b.changed (g.below 0)) s

def Stmt.changedAll (g : TypeChange) : List Stmt → List Stmt
  | [] => []
  | s :: ss => s.changed (g.below 0) :: Stmt.changedAll (g.below 1) ss

def Block.changed (g : TypeChange) : Block → Block
  | ⟨statements, s⟩ => ⟨Stmt.changedAll g statements, s⟩

end

mutual

def Stmt.mention : Stmt → Place → TypeRef
  | .expr e _ => Place.look default fun _ => e.mention
  | .block b => Place.look default fun _ => b.mention
  | .declare _ _ e _ | .ret e _ => Place.look default fun _ => e.elim default Expr.mention
  | .ite c t none _ =>
    Place.look default fun
      | 0 => c.mention
      | _ => t.mention
  | .ite c t (some e) _ =>
    Place.look default fun
      | 0 => c.mention
      | 1 => t.mention
      | _ => e.mention
  | .invoke i => Place.look default fun _ => Expr.mentionAll i.args
  | .allocationGuard i b _ =>
    Place.look default fun
      | 0 => Expr.mentionAll i.args
      | _ => b.mention
  | .classGuard type b _ => Place.look type fun _ => b.mention

def Stmt.mentionAll : List Stmt → Place → TypeRef
  | [] => default
  | s :: ss =>
    Place.look default fun
      | 0 => s.mention
      | _ => Stmt.mentionAll ss

def Block.mention : Block → Place → TypeRef
  | ⟨statements, _⟩ => Stmt.mentionAll statements

end

section Each

variable {α : Type}

def changedEach (f : TypeChange → α → α) (g : TypeChange) : List α → List α
  | [] => []
  | a :: as => f (g.below 0) a :: changedEach f (g.below 1) as

def mentionEach (f : α → Place → TypeRef) : List α → Place → TypeRef
  | [] => default
  | a :: as =>
    Place.look default fun
      | 0 => f a
      | _ => mentionEach f as

end Each

def EnclosingLink.changed (g : TypeChange) (link : EnclosingLink) : EnclosingLink :=
  { link with type := g [] link.type }

def EnclosingLink.mention (link : EnclosingLink) : Place → TypeRef :=
  Place.look link.type default

def Field.changed (g : TypeChange) (f : Field) : Field :=
  { f with initializer := f.initializer.map (Expr.changed g) }

def InitBlock.changed (g : TypeChange) (b : InitBlock) : InitBlock :=
  { b with body := b.body.changed g }

def Constructor.changed (g : TypeChange) (k : Constructor) : Constructor :=
  { k with body := k.body.changed g }

def Method.changed (g : TypeChange) (m : Method) : Method :=
  { m with body := m.body.changed g }

def Member.changed (g : TypeChange) : Member → Member
  | .field f => .field (f.changed g)
  | .block b => .block (b.changed g)
  | .constructor k => .constructor (k.changed g)
  | .method m => .method (m.changed g)

def Member.mention : Member → Place → TypeRef
  | .field f => f.initializer.elim default Expr.mention
  | .block b => b.body.mention
  | .constructor k => k.body.mention
  | .method m => m.body.mention

namespace ClassDecl

def changed (g : TypeChange) (c : ClassDecl) : ClassDecl :=
  { c with
    type := g [] c.type
    superclass := c.superclass.map (g [0])
    enclosing := changedEach EnclosingLink.changed (g.below 1) c.enclosing
    members := changedEach Member.changed (g.below 2) c.members }

def mention (c : ClassDecl) : Place → TypeRef :=
  Place.look c.type fun
    | 0 => Place.look (mentionOf id c.superclass) default
    | 1 => mentionEach EnclosingLink.mention c.enclosing
    | _ => mentionEach Member.mention c.members

end ClassDecl

end Definitions

section Twice

theorem Binding.changed_changed {f f' f'' : TypeRef → TypeRef} {b : Option Binding}
    (hm : f' (f (mentionOf Binding.mention b)) = f'' (mentionOf Binding.mention b)) :
    (b.map (Binding.changed f)).map (Binding.changed f') = b.map (Binding.changed f'') := by
  cases b with
  | none => rfl
  | some b =>
    cases b with
    | localVar => rfl
    | field r => exact congrArg (fun t => some (Binding.field { r with owner := t })) hm
    | type t => exact congrArg (some ∘ Binding.type) hm
    | enclosing t => exact congrArg (some ∘ Binding.enclosing) hm

theorem MethodRef.changed_changed {f f' f'' : TypeRef → TypeRef} {m : Option MethodRef}
    (hm : f' (f (mentionOf MethodRef.owner m)) = f'' (mentionOf MethodRef.owner m)) :
    (m.map (MethodRef.changed f)).map (MethodRef.changed f') = m.map (MethodRef.changed f'') := by
  cases m with
  | none => rfl
  | some m => exact congrArg (fun t => some { m with owner := t }) hm

-- Each equation is that of the parts, with what the node mentions itself in the place `[]`.
mutual

/-- Two changes one after the other come to one that agrees with them on the types mentioned. -/
theorem Expr.changed_changed (g h k : TypeChange) :
    (e : Expr) → (∀ p, h p (g p (e.mention p)) = k p (e.mention p)) →
      (e.changed g).changed h = e.changed k
  | .int .., _ | .float .., _ | .bool .., _ | .char .., _ | .null .., _ | .string .., _
  | .self .., _ | .unitString .., _ => rfl
  | .name x _ s, hm => congrArg (Expr.name x · s) (Binding.changed_changed (hm []))
  | .fieldAccess r f s, hm =>
    congrArg₂ (fun r t => Expr.fieldAccess r { f with owner := t } s)
      (Expr.changed_changed _ _ (k.below 0) r fun p => hm (0 :: p)) (hm [])
  | .assign l r s, hm =>
    congrArg₂ (Expr.assign · · s) (Expr.changed_changed _ _ (k.below 0) l fun p => hm (0 :: p))
      (Expr.changed_changed _ _ (k.below 1) r fun p => hm (1 :: p))
  | .binary op l r s, hm =>
    congrArg₂ (Expr.binary op · · s) (Expr.changed_changed _ _ (k.below 0) l fun p => hm (0 :: p))
      (Expr.changed_changed _ _ (k.below 1) r fun p => hm (1 :: p))
  | .call none selector args _ s, hm =>
    congrArg₂ (Expr.call none selector · · s)
      (Expr.changedAll_changedAll _ _ (k.below 1) args fun p => hm (1 :: p))
      (MethodRef.changed_changed (hm []))
  | .call (some r) selector args m s, hm => by
    have hr := Expr.changed_changed (g.below 0) (h.below 0) (k.below 0) r fun p => hm (0 :: p)
    have ha := Expr.changedAll_changedAll (g.below 1) (h.below 1) (k.below 1) args
      fun p => hm (1 :: p)
    have hm : (m.map (MethodRef.changed (g []))).map (MethodRef.changed (h [])) =
        m.map (MethodRef.changed (k [])) := MethodRef.changed_changed (hm [])
    simp only [Expr.changed, hr, ha, hm]
  | .new _ selector args none s, hm =>
    congrArg₂ (Expr.new · selector · none s) (hm [])
      (Expr.changedAll_changedAll _ _ (k.below 1) args fun p => hm (1 :: p))
  | .new type selector args (some o) s, hm => by
    have ho := Expr.changed_changed (g.below 0) (h.below 0) (k.below 0) o fun p => hm (0 :: p)
    have ha := Expr.changedAll_changedAll (g.below 1) (h.below 1) (k.below 1) args
      fun p => hm (1 :: p)
    have ht : h [] (g [] type) = k [] type := hm []
    simp only [Expr.changed, ho, ha, ht]
  | .array type args s, hm =>
    congrArg (Expr.array type · s)
      (Expr.changedAll_changedAll _ _ (k.below 1) args fun p => hm (1 :: p))
  | .allocate callee selector args s, hm =>
    congrArg (Expr.allocate callee selector · s)
      (Expr.changedAll_changedAll _ _ (k.below 1) args fun p => hm (1 :: p))
  | .hook procedure a s, hm =>
    congrArg (Expr.hook procedure · s)
      (Expr.changed_changed _ _ (k.below 0) a fun p => hm (0 :: p))
  | .formatString format args s, hm =>
    congrArg (Expr.formatString format · s)
      (Expr.changedAll_changedAll _ _ (k.below 1) args fun p => hm (1 :: p))

theorem Expr.changedAll_changedAll (g h k : TypeChange) :
    (es : List Expr) → (∀ p, h p (g p (Expr.mentionAll es p)) = k p (Expr.mentionAll es p)) →
      Expr.changedAll h (Expr.changedAll g es) = Expr.changedAll k es
  | [], _ => rfl
  | e :: es, hm =>
    congrArg₂ List.cons (Expr.changed_changed _ _ (k.below 0) e fun p => hm (0 :: p))
      (Expr.changedAll_changedAll _ _ (k.below 1) es fun p => hm (1 :: p))

end

theorem Expr.map_changed_changed (g h k : TypeChange) {e : Option Expr}
    (hm : ∀ p, h p (g p (e.elim default Expr.mention p)) = k p (e.elim default Expr.mention p)) :
    (e.map (Expr.changed g)).map (Expr.changed h) = e.map (Expr.changed k) := by
  cases e with
  | none => rfl
  | some e => exact congrArg some (Expr.changed_changed g h k e hm)

mutual

theorem Stmt.changed_changed (g h k : TypeChange) :
    (s : Stmt) → (∀ p, h p (g p (s.mention p)) = k p (s.mention p)) →
      (s.changed g).changed h = s.changed k
  | .expr e s, hm =>
    congrArg (Stmt.expr · s) (Expr.changed_changed _ _ (k.below 0) e fun p => hm (0 :: p))
  | .block b, hm =>
    congrArg Stmt.block (Block.changed_changed _ _ (k.below 0) b fun p => hm (0 :: p))
  | .declare x type _ s, hm =>
    congrArg (Stmt.declare x type · s)
      (Expr.map_changed_changed _ _ (k.below 0) fun p => hm (0 :: p))
  | .ite c t none s, hm =>
    congrArg₂ (Stmt.ite · · none s) (Expr.changed_changed _ _ (k.below 0) c fun p => hm (0 :: p))
      (Stmt.changed_changed _ _ (k.below 1) t fun p => hm (1 :: p))
  | .ite c t (some e) s, hm => by
    have hc := Expr.changed_changed (g.below 0) (h.below 0) (k.below 0) c fun p => hm (0 :: p)
    have ht := Stmt.changed_changed (g.below 1) (h.below 1) (k.below 1) t fun p => hm (1 :: p)
    have he := Stmt.changed_changed (g.below 2) (h.below 2) (k.below 2) e fun p => hm (2 :: p)
    simp only [Stmt.changed, hc, ht, he]
  | .ret _ s, hm =>
    congrArg (Stmt.ret · s) (Expr.map_changed_changed _ _ (k.below 0) fun p => hm (0 :: p))
  | .invoke i, hm =>
    congrArg (fun args => Stmt.invoke { i with args })
      (Expr.changedAll_changedAll _ _ (k.below 0) i.args fun p => hm (0 :: p))
  | .allocationGuard i b s, hm =>
    congrArg₂ (fun args b => Stmt.allocationGuard { i with args } b s)
      (Expr.changedAll_changedAll _ _ (k.below 0) i.args fun p => hm (0 :: p))
      (Block.changed_changed _ _ (k.below 1) b fun p => hm (1 :: p))
  | .classGuard _ b s, hm =>
    congrArg₂ (Stmt.classGuard · · s) (hm [])
      (Block.changed_changed _ _ (k.below 0) b fun p => hm (0 :: p))

theorem Stmt.changedAll_changedAll (g h k : TypeChange) :
    (ss : List Stmt) → (∀ p, h p (g p (Stmt.mentionAll ss p)) = k p (Stmt.mentionAll ss p)) →
      Stmt.changedAll h (Stmt.changedAll g ss) = Stmt.changedAll k ss
  | [], _ => rfl
  | s :: ss, hm =>
    congrArg₂ List.cons (Stmt.changed_changed _ _ (k.below 0) s fun p => hm (0 :: p))
      (Stmt.changedAll_changedAll _ _ (k.below 1) ss fun p => hm (1 :: p))

theorem Block.changed_changed (g h k : TypeChange) :
    (b : Block) → (∀ p, h p (g p (b.mention p)) = k p (b.mention p)) →
      (b.changed g).changed h = b.changed k
  | ⟨statements, s⟩, hm =>
    congrArg (Block.mk · s) (Stmt.changedAll_changedAll g h k statements hm)

end

theorem changedEach_changedEach {α : Type} {f : TypeChange → α → α} {look : α → Place → TypeRef}
    (hf : ∀ (g h k : TypeChange) (a : α), (∀ p, h p (g p (look a p)) = k p (look a p)) →
      f h (f g a) = f k a) (g h k : TypeChange) (as : List α)
    (hm : ∀ p, h p (g p (mentionEach look as p)) = k p (mentionEach look as p)) :
    changedEach f h (changedEach f g as) = changedEach f k as := by
  induction as generalizing g h k with
  | nil => rfl
  | cons a as ih =>
    exact congrArg₂ List.cons (hf _ _ (k.below 0) a fun p => hm (0 :: p))
      (ih _ _ (k.below 1) fun p => hm (1 :: p))

theorem Member.changed_changed (g h k : TypeChange) (m : Member)
    (hm : ∀ p, h p (g p (m.mention p)) = k p (m.mention p)) :
    (m.changed g).changed h = m.changed k := by
  cases m with
  | field f =>
    exact congrArg (fun e => Member.field { f with initializer := e })
      (Expr.map_changed_changed g h k hm)
  | block b =>
    exact congrArg (fun body => Member.block { b with body })
      (Block.changed_changed g h k b.body hm)
  | constructor c =>
    exact congrArg (fun body => Member.constructor { c with body })
      (Block.changed_changed g h k c.body hm)
  | method f =>
    exact congrArg (fun body => Member.method { f with body })
      (Block.changed_changed g h k f.body hm)

theorem ClassDecl.changed_changed (g h k : TypeChange) (c : ClassDecl)
    (hm : ∀ p, h p (g p (c.mention p)) = k p (c.mention p)) :
    (c.changed g).changed h = c.changed k := by
  have htype : h [] (g [] c.type) = k [] c.type := hm []
  have hsuper : (c.superclass.map (g [0])).map (h [0]) = c.superclass.map (k [0]) := by
    have hm₀ : h [0] (g [0] (mentionOf id c.superclass)) = k [0] (mentionOf id c.superclass) :=
      hm [0]
    cases hc : c.superclass with
    | none => rfl
    | some t =>
      rw [hc] at hm₀
      exact congrArg some hm₀
  have hlinks := changedEach_changedEach (f := EnclosingLink.changed)
    (fun g h k link hl => congrArg (fun t => { link with type := t }) (hl []))
    (g.below 1) (h.below 1) (k.below 1) c.enclosing fun p => hm (1 :: p)
  have hmembers := changedEach_changedEach Member.changed_changed
    (g.below 2) (h.below 2) (k.below 2) c.members fun p => hm (2 :: p)
  simp only [changed, htype, hsuper, hlinks, hmembers]

end Twice

section Identity

mutual

theorem Expr.changed_id : (e : Expr) → e.changed (.always id) = e
  | .int .. | .float .. | .bool .. | .char .. | .null .. | .string .. | .self .. | .unitString ..
  | .name _ none _ | .name _ (some .localVar) _ | .name _ (some (.field _)) _
  | .name _ (some (.type _)) _ | .name _ (some (.enclosing _)) _ => rfl
  | .fieldAccess r f s => congrArg (Expr.fieldAccess · f s) (Expr.changed_id r)
  | .assign l r s => congrArg₂ (Expr.assign · · s) (Expr.changed_id l) (Expr.changed_id r)
  | .binary op l r s => congrArg₂ (Expr.binary op · · s) (Expr.changed_id l) (Expr.changed_id r)
  | .call none selector args none s =>
    congrArg (Expr.call none selector · none s) (Expr.changedAll_id args)
  | .call none selector args (some m) s =>
    congrArg (Expr.call none selector · (some m) s) (Expr.changedAll_id args)
  | .call (some r) selector args none s =>
    congrArg₂ (fun r args => Expr.call (some r) selector args none s) (Expr.changed_id r)
      (Expr.changedAll_id args)
  | .call (some r) selector args (some m) s =>
    congrArg₂ (fun r args => Expr.call (some r) selector args (some m) s) (Expr.changed_id r)
      (Expr.changedAll_id args)
  | .new type selector args none s =>
    congrArg (Expr.new type selector · none s) (Expr.changedAll_id args)
  | .new type selector args (some o) s =>
    congrArg₂ (fun args o => Expr.new type selector args (some o) s) (Expr.changedAll_id args)
      (Expr.changed_id o)
  | .array type args s => congrArg (Expr.array type · s) (Expr.changedAll_id args)
  | .allocate callee selector args s =>
    congrArg (Expr.allocate callee selector · s) (Expr.changedAll_id args)
  | .hook procedure a s => congrArg (Expr.hook procedure · s) (Expr.changed_id a)
  | .formatString format args s => congrArg (Expr.formatString format · s) (Expr.changedAll_id args)

theorem Expr.changedAll_id : (es : List Expr) → Expr.changedAll (.always id) es = es
  | [] => rfl
  | e :: es => congrArg₂ List.cons (Expr.changed_id e) (Expr.changedAll_id es)

end

theorem Expr.map_changed_id (e : Option Expr) : e.map (Expr.changed (.always id)) = e := by
  cases e with
  | none => rfl
  | some e => exact congrArg some (Expr.changed_id e)

mutual

theorem Stmt.changed_id : (s : Stmt) → s.changed (.always id) = s
  | .expr e s => congrArg (Stmt.expr · s) (Expr.changed_id e)
  | .block b => congrArg Stmt.block (Block.changed_id b)
  | .declare x type e s => congrArg (Stmt.declare x type · s) (Expr.map_changed_id e)
  | .ite c t none s => congrArg₂ (Stmt.ite · · none s) (Expr.changed_id c) (Stmt.changed_id t)
  | .ite c t (some e) s => by
    have he := Stmt.changed_id e
    have ht := Stmt.changed_id t
    simp only [Stmt.changed, TypeChange.below_always, Expr.changed_id c, ht, he]
  | .ret e s => congrArg (Stmt.ret · s) (Expr.map_changed_id e)
  | .invoke i => congrArg (fun args => Stmt.invoke { i with args }) (Expr.changedAll_id i.args)
  | .allocationGuard i b s =>
    congrArg₂ (fun args b => Stmt.allocationGuard { i with args } b s) (Expr.changedAll_id i.args)
      (Block.changed_id b)
  | .classGuard type b s => congrArg (Stmt.classGuard type · s) (Block.changed_id b)

theorem Stmt.changedAll_id : (ss : List Stmt) → Stmt.changedAll (.always id) ss = ss
  | [] => rfl
  | s :: ss => congrArg₂ List.cons (Stmt.changed_id s) (Stmt.changedAll_id ss)

theorem Block.changed_id : (b : Block) → b.changed (.always id) = b
  | ⟨statements, s⟩ => congrArg (Block.mk · s) (Stmt.changedAll_id statements)

end

theorem changedEach_always {α : Type} (f : TypeChange → α → α) (ρ : TypeRef → TypeRef)
    (as : List α) : changedEach f (.always ρ) as = as.map (f (.always ρ)) := by
  induction as with
  | nil => rfl
  | cons a as ih => exact congrArg _ ih

theorem Member.changed_id (m : Member) : m.changed (.always id) = m := by
  cases m with
  | field f =>
    exact congrArg (fun e => Member.field { f with initializer := e })
      (Expr.map_changed_id f.initializer)
  | block b => exact congrArg (fun body => Member.block { b with body }) (Block.changed_id b.body)
  | constructor c =>
    exact congrArg (fun body => Member.constructor { c with body }) (Block.changed_id c.body)
  | method f =>
    exact congrArg (fun body => Member.method { f with body }) (Block.changed_id f.body)

theorem ClassDecl.changed_id (c : ClassDecl) : c.changed (.always id) = c := by
  have hlinks : c.enclosing.map (EnclosingLink.changed (.always id)) = c.enclosing :=
    List.map_id _
  have hmembers : c.members.map (Member.changed (.always id)) = c.members := by
    rw [funext Member.changed_id]
    exact List.map_id _
  simp only [changed, TypeChange.below_always, TypeChange.always_apply, changedEach_always, hlinks,
    hmembers, Option.map_id_fun, id]

end Identity

end ExplicitInit
