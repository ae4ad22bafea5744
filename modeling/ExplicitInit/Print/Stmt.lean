import ExplicitInit.Print.Expr
import ExplicitInit.Stmt

namespace ExplicitInit

structure Line where
  depth : Nat
  text : String
deriving DecidableEq

def Line.render (l : Line) : String :=
  String.ofList (List.replicate (2 * l.depth) ' ') ++ l.text ++ "\n"

namespace Print

def render (lines : List Line) : String :=
  String.join (lines.map Line.render)

def braced (depth : Nat) (opening : String) (inside : List Line) : List Line :=
  ⟨depth, opening ++ "\x7b"⟩ :: inside ++ [⟨depth, "\x7d"⟩]

def allocationTest (i : Invocation) : String :=
  "if ((self = " ++ invocation i ++ ")) "

def classTest (type : TypeRef) : String :=
  "if (self == [" ++ type.name ++ " class]) "

mutual

/-- The lines of a statement at a depth. A block that is a branch of a conditional has no braces of
its own. -/
def stmt (depth : Nat) : Stmt → List Line
  | .expr e _ => [⟨depth, expr e ++ ";"⟩]
  | .block b => braced depth "" (block (depth + 1) b)
  | .declare x type (some e) _ => [⟨depth, type ++ " " ++ x ++ " = " ++ expr e ++ ";"⟩]
  | .declare x type none _ => [⟨depth, type ++ " " ++ x ++ ";"⟩]
  | .ite c t none _ =>
    braced depth ("if (" ++ expr c ++ ") ")
      (match t with
        | .block b => block (depth + 1) b
        | s => stmt (depth + 1) s)
  | .ite c t (some e) _ =>
    braced depth ("if (" ++ expr c ++ ") ")
      (match t with
        | .block b => block (depth + 1) b
        | s => stmt (depth + 1) s) ++
    braced depth "else "
      (match e with
        | .block b => block (depth + 1) b
        | s => stmt (depth + 1) s)
  | .ret (some e) _ => [⟨depth, "return " ++ expr e ++ ";"⟩]
  | .ret none _ => [⟨depth, "return;"⟩]
  | .invoke i => [⟨depth, invocation i ++ ";"⟩]
  | .allocationGuard i b _ => braced depth (allocationTest i) (block (depth + 1) b)
  | .classGuard type b _ => braced depth (classTest type) (block (depth + 1) b)

def stmts (depth : Nat) : List Stmt → List Line
  | [] => []
  | s :: ss => stmt depth s ++ stmts depth ss

def block (depth : Nat) : Block → List Line
  | ⟨statements, _⟩ => stmts depth statements

end

end Print

def Stmt.text (s : Stmt) : String :=
  Print.render (Print.stmt 0 s)

end ExplicitInit
