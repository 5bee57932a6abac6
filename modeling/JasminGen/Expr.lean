/-
  JasminGen.Expr

  Operators and expressions of the source language.
-/

namespace JasminGen

/-- Operators from two integers to an integer. -/
inductive ArithOp where
  | add
  | sub
  | mul
  | div
  deriving DecidableEq

/-- Comparisons of two integers by order. -/
inductive OrderOp where
  | lt
  | gt
  deriving DecidableEq

/-- Connectives of two booleans. The right operand is evaluated only if the left
    one does not decide. -/
inductive LogicOp where
  | and
  | or
  deriving DecidableEq

/-- Binary operators, by the kind of their operands. -/
inductive BinaryOp where
  | arith (op : ArithOp)
  | order (op : OrderOp)
  | logic (op : LogicOp)
  | equal
  deriving DecidableEq

inductive UnaryOp where
  | not
  | neg
  deriving DecidableEq

namespace BinaryOp

/-- An operator as it is written in the source language. -/
def symbol : BinaryOp → String
  | .arith .add => "+"
  | .arith .sub => "-"
  | .arith .mul => "*"
  | .arith .div => "/"
  | .equal => "=="
  | .order .lt => "<"
  | .order .gt => ">"
  | .logic .and => "&"
  | .logic .or => "|"

end BinaryOp

namespace UnaryOp

def symbol : UnaryOp → String
  | .not => "~"
  | .neg => "-"

end UnaryOp

/-- An expression. A name stands for a function if there is one of that name, and
    for a variable otherwise. -/
inductive Expr where
  | int (value : Int32)
  | bool (value : Bool)
  | ident (name : String)
  | group (inner : Expr)
  | binary (op : BinaryOp) (lhs rhs : Expr)
  | unary (op : UnaryOp) (operand : Expr)
  | index (list position : Expr)
  | append (list element : Expr)
  | size (list : Expr)
  | call (target : Expr) (args : List Expr)
  | field (object : Expr) (name : String)

instance : Inhabited Expr := ⟨.bool false⟩

end JasminGen
