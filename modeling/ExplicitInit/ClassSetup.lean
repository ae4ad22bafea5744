import ExplicitInit.Options
import ExplicitInit.Preamble

namespace ExplicitInit

def intoLastGuard? (type : TypeRef) (added : List Stmt) : List Stmt → Option (List Stmt)
  | [] => none
  | s :: rest =>
    match intoLastGuard? type added rest with
    | some rest' => some (s :: rest')
    | none =>
      match s with
      | .classGuard guarded body span =>
        if guarded.same type then
          let body' := { body with statements := body.statements ++ added }
          some (.classGuard guarded body' span :: rest)
        else none
      | _ => none

def newGuard (type : TypeRef) (statements : List Stmt) : Stmt :=
  .classGuard type (.ofList statements) .synthetic

/-- Adds statements behind the last guard for a class, or behind a new guard at the end. -/
def Block.withGuarded (type : TypeRef) (added : List Stmt) (b : Block) : Block :=
  { b with
    statements := (intoLastGuard? type added b.statements).getD
      (b.statements ++ [newGuard type added]) }

def intoSetup? (type : TypeRef) (added : List Stmt) : List Member → Option (List Member)
  | [] => none
  | d :: rest =>
    match d with
    | .method m =>
      if m.kind = .classSetup then
        some (.method { m with body := m.body.withGuarded type added } :: rest)
      else (intoSetup? type added rest).map (d :: ·)
    | _ => (intoSetup? type added rest).map (d :: ·)

theorem intoSetup?_eq_none_iff {type : TypeRef} {added : List Stmt} {ms : List Member} :
    intoSetup? type added ms = none ↔ ∀ m ∈ ms, m.isClassSetup = false := by
  induction ms with
  | nil => simp [intoSetup?]
  | cons d rest ih =>
    cases d with
    | method m =>
      by_cases hm : m.kind = .classSetup
      · simp [intoSetup?, Member.isClassSetup, hm]
      · simpa [intoSetup?, Member.isClassSetup, hm] using ih
    | _ => simpa [intoSetup?, Member.isClassSetup] using ih

namespace ClassDecl

def newSetup (o : Options) (c : ClassDecl) (statements : List Stmt) : Method :=
  { Method.classSetup o.classSetup [] [newGuard c.type statements] with isSynthetic := true }

/-- Classes that inherit the setup method run it too, so the static preamble goes behind a guard for
exactly its own class. -/
def withClassSetup (o : Options) (c : ClassDecl) : ClassDecl :=
  let statements := c.preamble .ofClass
  if statements.isEmpty then c
  else
    let bare := c.withoutPreamble .ofClass
    match intoSetup? c.type statements bare.members with
    | some members => { bare with members }
    | none => bare.push (.method (c.newSetup o statements))

end ClassDecl

end ExplicitInit
