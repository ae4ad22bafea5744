import ExplicitInit.Class.Basic
import ExplicitInit.Rewrite
import ExplicitInit.Text.Inline

namespace ExplicitInit

structure StringLiteral where
  units : List UInt16
  span : Span

namespace StringLiteral

def isInline (l : StringLiteral) : Bool :=
  allInline l.units

def numbered (l : StringLiteral) : Expr :=
  .unitString l.units l.span

def formatChar (c : Char) : List Char :=
  if c = '%' then ['%', '%'] else [c]

def formatPart (l : StringLiteral) : List Char :=
  if l.isInline then (Utf16.lossy l.units).toList.flatMap formatChar else ['%', '@']

end StringLiteral

def Expr.literals? : Expr → Option (List StringLiteral)
  | .string units span => some [⟨units, span⟩]
  | .binary .concat left right _ =>
    match left.literals? with
    | some ls =>
      match right.literals? with
      | some rs => some (ls ++ rs)
      | none => none
    | none => none
  | _ => none

/-- The literals of an expression that joins nothing but string literals, if one of them has to be
respelled. -/
def Expr.mixture? (e : Expr) : Option (List StringLiteral) :=
  e.literals?.filter fun ls => ls.any (!·.isInline)

def formatOf (ls : List StringLiteral) (span : Span) : Expr :=
  .formatString (String.ofList (ls.flatMap StringLiteral.formatPart))
    ((ls.filter (!·.isInline)).map StringLiteral.numbered) span

def literalRewriter : Rewriter (StateM Nat) where
  expression e walk :=
    match e with
    | .string units span =>
      if allInline units then walk
      else do
        modify (· + 1)
        return .unitString units span
    | .binary _ _ _ span =>
      match e.mixture? with
      | some ls => do
        modify (· + ls.countP (!·.isInline))
        return formatOf ls span
      | none => walk
    | _ => walk

/-- Literals are respelled where they run: in constructors and in the method that the class runs
once. -/
def Member.respelled : Member → StateM Nat Member
  | .constructor k => do
    let body ← literalRewriter.rewriteBlock k.body
    return .constructor { k with body }
  | .method m =>
    if m.kind = .classSetup then do
      let body ← literalRewriter.rewriteBlock m.body
      return .method { m with body }
    else return .method m
  | d => return d

def ClassDecl.respelled (c : ClassDecl) : ClassDecl × Nat :=
  let (members, count) := (c.members.mapM Member.respelled).run 0
  ({ c with members }, count)

end ExplicitInit
