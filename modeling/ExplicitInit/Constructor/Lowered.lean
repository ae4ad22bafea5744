import ExplicitInit.Class.Basic
import ExplicitInit.Options

namespace ExplicitInit

structure LoweringContext where
  options : Options
  enclosingParam : Option Param
  enclosingAssignment : List Stmt
  hoisted : List Stmt

namespace LoweringContext

def preamble (x : LoweringContext) : List Stmt :=
  x.enclosingAssignment ++ x.hoisted

def hook (x : LoweringContext) (argument : Expr) : Expr :=
  .hook x.options.memoryHook argument .synthetic

end LoweringContext

def splitInvocation : List Stmt → Option Invocation × List Stmt
  | .invoke i :: rest => (some i, rest)
  | statements => (none, statements)

/-- Whether the first argument is a name, whatever it is bound to. -/
def Invocation.passes (i : Invocation) (x : String) : Bool :=
  match i.args with
  | .name y _ _ :: _ => y == x
  | _ => false

/-- A sibling in an inner class expects the enclosing instance as its first argument. -/
def Invocation.forwarding (i : Invocation) : Option Param → Invocation
  | none => i
  | some p => if i.passes p.name then i else { i with args := .localVar p.name :: i.args }

namespace Constructor

def withStatements (k : Constructor) (statements : List Stmt) : Constructor :=
  { k with body := { k.body with statements } }

def withEnclosingParam (k : Constructor) : Option Param → Constructor
  | none => k
  | some p => if k.enclosingParam?.isSome then k else { k with params := p :: k.params }

/-- Allocates through the superclass, runs the preamble and the statements of the source, and
registers the instance. -/
def designatedForm (x : LoweringContext) (k : Constructor) : Constructor :=
  let (invocation, rest) := splitInvocation k.body.statements
  let allocation := invocation.getD (.toSuperclass x.options.defaultSelector [])
  let registration := Stmt.ofExpr (x.hook (.self .synthetic))
  let guarded := Block.ofList (x.preamble ++ rest ++ [registration])
  { k.withStatements
      [.allocationGuard allocation guarded k.span, .returning (some (.self .synthetic))] with
    preambleLength := some x.preamble.length }

def delegatingForm (x : LoweringContext) (k : Constructor) : Constructor :=
  match splitInvocation k.body.statements with
  | (none, _) => k
  | (some i, []) =>
    k.withStatements [.returning (some (x.hook (i.forwarding x.enclosingParam).toExpr))]
  | (some i, rest) =>
    k.withStatements
      [.allocationGuard (i.forwarding x.enclosingParam) (.ofList rest) k.span,
        .returning (some (x.hook (.self .synthetic)))]

/-- Adds statements at the end of the preamble of a constructor that is lowered already. -/
def extendPreamble (added : List Stmt) (k : Constructor) : Constructor :=
  match k.body.statements, k.boundary? with
  | .allocationGuard i body span :: rest, some n =>
    let guarded := body.statements.take n ++ added ++ body.statements.drop n
    { k.withStatements (.allocationGuard i { body with statements := guarded } span :: rest) with
      preambleLength := some (n + added.length) }
  | _, _ => k

/-- The lowered form for a role. Of constructors that are lowered already, the designated ones take
in what is new in the preamble. -/
def lower (x : LoweringContext) (k : Constructor) (role : Role) : Constructor :=
  if k.isLowered then
    match role with
    | .designated => k.extendPreamble x.hoisted
    | .delegating => k
  else
    match role with
    | .designated => (k.withEnclosingParam x.enclosingParam).designatedForm x
    | .delegating => (k.withEnclosingParam x.enclosingParam).delegatingForm x

theorem withEnclosingParam_selector (k : Constructor) (p : Option Param) :
    (k.withEnclosingParam p).selector = k.selector := by
  unfold withEnclosingParam
  split
  · rfl
  · split <;> rfl

theorem delegatingForm_selector (x : LoweringContext) (k : Constructor) :
    (k.delegatingForm x).selector = k.selector := by
  unfold delegatingForm
  split <;> rfl

theorem extendPreamble_selector (added : List Stmt) (k : Constructor) :
    (k.extendPreamble added).selector = k.selector := by
  unfold extendPreamble
  split <;> rfl

theorem lower_selector (x : LoweringContext) (k : Constructor) (role : Role) :
    (k.lower x role).selector = k.selector := by
  unfold lower
  split
  · cases role with
    | designated => exact extendPreamble_selector _ _
    | delegating => rfl
  · cases role with
    | designated => exact withEnclosingParam_selector _ _
    | delegating => exact (delegatingForm_selector _ _).trans (withEnclosingParam_selector _ _)

theorem designatedForm_boundary? (x : LoweringContext) (k : Constructor) :
    (k.designatedForm x).boundary? = some x.preamble.length := by
  simp [designatedForm, boundary?, guarded?, withStatements, Block.ofList]

theorem extendPreamble_nil (k : Constructor) : k.extendPreamble [] = k := by
  unfold extendPreamble
  split
  · rename_i i body span rest n hs hb
    have hn : k.preambleLength = some n := by
      unfold boundary? at hb
      split at hb
      · exact (Option.filter_eq_some_iff.mp hb).1
      · simp at hb
    obtain ⟨selector, params, kbody, role, preambleLength, synthetic, kspan⟩ := k
    obtain ⟨statements, bodySpan⟩ := kbody
    simp only at hs hn
    subst hs
    simp [withStatements, hn]
  · rfl

end Constructor

end ExplicitInit
