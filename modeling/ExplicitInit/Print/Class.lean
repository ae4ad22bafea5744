import ExplicitInit.Print.Stmt
import ExplicitInit.Class.Basic

namespace ExplicitInit

namespace Print

def param (p : Param) : String :=
  "(" ++ p.type ++ ")" ++ p.name

def heading (selector : String) (params : List Param) : String :=
  filled selector (params.map param)

def fieldDecl (owner : TypeRef) (f : Field) : String :=
  let declared :=
    if f.isStatic then "static " ++ f.type ++ " " ++ staticField owner.name f.name
    else f.type ++ " " ++ instanceField f.name
  match f.initializer with
  | some e => declared ++ " = " ++ expr e ++ ";"
  | none => declared ++ ";"

def constructor (depth : Nat) (k : Constructor) : List Line :=
  braced depth ("- (id)" ++ heading k.selector k.params ++ " ") (block (depth + 1) k.body)

def method (depth : Nat) (m : Method) : List Line :=
  let sign := if m.isStatic then "+ (" else "- ("
  braced depth (sign ++ m.returnType ++ ")" ++ heading m.name m.params ++ " ")
    (block (depth + 1) m.body)

def member (owner : TypeRef) (depth : Nat) : Member → List Line
  | .field f => [⟨depth, fieldDecl owner f⟩]
  | .block b => braced depth (if b.isStatic then "static " else "") (block (depth + 1) b.body)
  | .constructor k => constructor depth k
  | .method m => method depth m

def classDecl (c : ClassDecl) : List Line :=
  ⟨0, "@implementation " ++ c.type.name⟩ :: c.members.flatMap (member c.type 0) ++ [⟨0, "@end"⟩]

end Print

def Constructor.text (k : Constructor) : String :=
  Print.render (Print.constructor 0 k)

def Method.text (m : Method) : String :=
  Print.render (Print.method 0 m)

def ClassDecl.text (c : ClassDecl) : String :=
  Print.render (Print.classDecl c)

end ExplicitInit
