/-
  JasminGen.Stmt

  Statements, definitions and programs of the source language.

  Main function: `Stmt.declares`, the variables that a statement declares at any
  depth.
-/

import JasminGen.Expr
import JasminGen.Ty

namespace JasminGen

inductive Stmt where
  | block (body : List Stmt)
  | declare (name : String) (ty : Ty) (value : Option Expr)
  | assign (target value : Expr)
  | cond (test : Expr) (positive : Stmt) (negative : Option Stmt)
  | loop (count : Expr) (body : Stmt)
  | call (target : Expr) (args : List Expr)
  | ret (value : Option Expr)
  | display (value : Expr)
  | append (list element : Expr)
  | size (list : Expr)

instance : Inhabited Stmt := ⟨.block []⟩

/-- A name with its type: a parameter, a field or a variable. -/
structure Binding where
  name : String
  ty : Ty
  deriving DecidableEq

/-- A field of a struct; without a value it starts with the zero of its type. -/
structure FieldDef where
  name : String
  ty : Ty
  value : Option Expr

structure StructDef where
  name : String
  fields : List FieldDef

structure FunctionDef where
  name : String
  params : List Binding
  result : Ty
  body : List Stmt

/-- A program: struct and function definitions around the statements it runs. -/
structure Program where
  structs : List StructDef := []
  body : List Stmt := []
  functions : List FunctionDef := []

def FieldDef.binding (field : FieldDef) : Binding :=
  ⟨field.name, field.ty⟩

namespace Stmt

mutual

/-- The variables that a statement declares, those of nested statements
    included, in the order of the text. -/
def declares : Stmt → List Binding
  | .block body => declaresAll body
  | .declare name ty _ => [⟨name, ty⟩]
  | .cond _ positive none => positive.declares
  | .cond _ positive (some negative) => positive.declares ++ negative.declares
  | .loop _ body => body.declares
  | .assign _ _ | .call _ _ | .ret _ | .display _ | .append _ _ | .size _ => []

/-- The variables that a list of statements declares. -/
def declaresAll : List Stmt → List Binding
  | [] => []
  | s :: rest => s.declares ++ declaresAll rest

end

end Stmt

end JasminGen
