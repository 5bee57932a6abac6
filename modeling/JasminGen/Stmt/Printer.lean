/-
  JasminGen.Stmt.Printer

  Statements as one line of source text. Of a statement with nested statements
  only the head is written.

  Main function: `Stmt.render`.
-/

import JasminGen.Expr.Printer
import JasminGen.Stmt

namespace JasminGen

open Text (paint)

namespace Ty

/-- A type in the colour of types. -/
def paintedRender (colored : Bool) (ty : Ty) : String :=
  paint colored .yellow ty.render

end Ty

namespace Stmt

/-- The head of a statement as it is written in the source language. -/
def render (colored : Bool) : Stmt → String
  | .block body => "\x7b " ++ toString body.length ++ " statements \x7d"
  | .declare name ty none => ty.paintedRender colored ++ " " ++ paint colored .blue name
  | .declare name ty (some value) =>
    ty.paintedRender colored ++ " " ++ paint colored .blue name ++ " = " ++ value.render colored
  | .assign target value => target.render colored ++ " = " ++ value.render colored
  | .cond test _ _ => paint colored .magenta "if" ++ " (" ++ test.render colored ++ ")"
  | .loop count _ =>
    paint colored .magenta "loop" ++ " " ++ count.render colored ++ " " ++
      paint colored .magenta "times"
  | .call target args => (Expr.call target args).render colored
  | .ret none => paint colored .magenta "return"
  | .ret (some value) => paint colored .magenta "return" ++ " " ++ value.render colored
  | .display value => paint colored .cyan "display" ++ "(" ++ value.render colored ++ ")"
  | .append list element => (Expr.append list element).render colored
  | .size list => (Expr.size list).render colored

end Stmt

end JasminGen
