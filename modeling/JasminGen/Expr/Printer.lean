/-
  JasminGen.Expr.Printer

  Expressions as one line of source text. Literals, names and the words of list
  operations are coloured when colours are on.

  Main function: `Expr.render`.
-/

import JasminGen.Expr
import JasminGen.Text.Ansi

namespace JasminGen

open Text (paint)

namespace Expr

mutual

/-- An expression as it is written in the source language. -/
def render (colored : Bool) : Expr → String
  | .int value => paint colored .magenta (toString value.toInt)
  | .bool value => paint colored .magenta (if value then "true" else "false")
  | .ident name => paint colored .blue name
  | .group inner => "(" ++ inner.render colored ++ ")"
  | .binary op lhs rhs => lhs.render colored ++ " " ++ op.symbol ++ " " ++ rhs.render colored
  | .unary op operand => op.symbol ++ operand.render colored
  | .index list position => list.render colored ++ "[" ++ position.render colored ++ "]"
  | .append list element =>
    paint colored .cyan "append" ++ "(" ++ list.render colored ++ ", " ++
      element.render colored ++ ")"
  | .size list => paint colored .cyan "size" ++ "(" ++ list.render colored ++ ")"
  | .call target args => target.render colored ++ "(" ++ renderArgs colored args ++ ")"
  | .field object name => object.render colored ++ "." ++ paint colored .blue name

/-- Arguments of a call, with a comma between two of them. -/
def renderArgs (colored : Bool) : List Expr → String
  | [] => ""
  | [arg] => arg.render colored
  | arg :: next :: rest => arg.render colored ++ ", " ++ renderArgs colored (next :: rest)

end

end Expr

end JasminGen
