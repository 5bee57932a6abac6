/-
  JasminGen.Symbol.Typing

  Static types of expressions, read off a symbol table. Types are not checked:
  the type of an operator is that of its result, whatever its operands are.

  Main definitions: `Oracle`, `SymbolTable.typeOf`.
-/

import JasminGen.Error
import JasminGen.Symbol.Table

namespace JasminGen

/-- Answers the static type of an expression that stands in a scope. -/
abbrev Oracle := ScopeId → Expr → Except Failure Ty

/-- The oracle that gives every expression the same type. -/
def Oracle.constant (ty : Ty) : Oracle := fun _ _ => .ok ty

namespace BinaryOp

def resultTy : BinaryOp → Ty
  | .arith _ => .int
  | .order _ | .logic _ | .equal => .bool

end BinaryOp

namespace UnaryOp

def resultTy : UnaryOp → Ty
  | .not => .bool
  | .neg => .int

end UnaryOp

namespace SymbolTable

/-- The type of a name: a function comes before a variable. -/
def typeOfName (table : SymbolTable) (id : ScopeId) (name : String) : Except Failure Ty :=
  match table.lookupFunction id name with
  | .error fault => .error (.fault fault)
  | .ok (some signature) => .ok signature.pointerTy
  | .ok none =>
    match table.lookupVariable id name with
    | .error fault => .error (.fault fault)
    | .ok (some ty) => .ok ty
    | .ok none => .error (.unresolved .variable name)

/-- The type of an element of a list type. -/
def elementTy : Ty → Except Failure Ty
  | .list element => .ok element
  | other => .error (.unsupported (.indexOf other))

/-- The type of the result of a call to a value of a function pointer type. -/
def resultTy : Ty → Except Failure Ty
  | .fptr _ result => .ok result
  | other => .error (.unsupported (.callOf other))

/-- The static type of an expression. -/
def typeOf (table : SymbolTable) : Oracle := fun id e => go id e
where
  go (id : ScopeId) : Expr → Except Failure Ty
    | .int _ => .ok .int
    | .bool _ => .ok .bool
    | .ident name => table.typeOfName id name
    | .group inner => go id inner
    | .binary op _ _ => .ok op.resultTy
    | .unary op _ => .ok op.resultTy
    | .index list _ => (go id list).bind elementTy
    | .append _ _ => .ok .void
    | .size _ => .ok .int
    | .call target _ => (go id target).bind resultTy
    | .field _ _ => .error (.unsupported .fieldType)

end SymbolTable

end JasminGen
