/-
  JasminGen.Codegen.Expr

  Code for expressions. The code of an expression leaves its value on the stack,
  boxed; a call without result leaves nothing. Integers and booleans are unboxed
  right before the instruction that needs them.

  Main function: `Expr.lower`.
-/

import JasminGen.Codegen.Value

namespace JasminGen

open Gen

namespace ArithOp

def instr : ArithOp → Instr
  | .add => .iadd
  | .sub => .isub
  | .mul => .imul
  | .div => .idiv

end ArithOp

namespace OrderOp

/-- The jump that is taken when the comparison does not hold. -/
def negated : OrderOp → Branch
  | .lt => .ifIcmpge
  | .gt => .ifIcmple

end OrderOp

namespace LogicOp

/-- The jump that is taken when the left operand decides. -/
def skip : LogicOp → Branch
  | .and => .ifeq
  | .or => .ifne

/-- The value when the left operand decides. -/
def decided : LogicOp → Instr
  | .and => .iconst0
  | .or => .iconst1

end LogicOp

namespace Expr

/-- Code for a name. A function becomes a pointer to it that holds the current
    receiver; anything else is read from its slot. In the constructor of a struct
    the receiver has no functions. -/
def lowerName (name : String) : Gen Unit := do
  match ← lookupFunction name with
  | some _ =>
    match (← scope).kind with
    | .struct => unsupported (.functionInStruct name)
    | _ => instrs [.new fptrClass, .dup, .aload receiverSlot, .ldcText name, .invoke .fptrInit]
  | none => instr (.aload (← slotOf name))

/-- The type of the result of a call to an expression. -/
def callResult (target : Expr) : Gen Ty := do
  match ← typeOf target with
  | .fptr _ result => Gen.pure result
  | other => unsupported (.callOf other)

/-- Narrow the result of a call to its class, or drop it if there is none. -/
def narrowResult (result : Ty) : Gen Unit :=
  match result.className? with
  | some name => instr (.checkcast name)
  | none => instr .pop

mutual

/-- Code for an expression. -/
def lower : Expr → Gen Unit
  | .int value => do
    instr (.ldcInt value)
    box .int
  | .bool value => do
    instr (if value then .iconst1 else .iconst0)
    box .bool
  | .ident name => lowerName name
  | .group inner => lower inner
  | .binary (.arith op) lhs rhs => do
    lower lhs
    unbox .int
    lower rhs
    unbox .int
    instr op.instr
    box .int
  | .binary (.order op) lhs rhs => do
    lower lhs
    unbox .int
    lower rhs
    unbox .int
    condition op.negated
  | .binary (.logic op) lhs rhs => do
    let otherwise ← freshLabel
    let after ← freshLabel
    lower lhs
    unbox .bool
    instr (.branch op.skip otherwise)
    lower rhs
    unbox .bool
    instr (.goto after)
    declareLabel otherwise
    instr op.decided
    declareLabel after
    box .bool
  | .binary .equal lhs rhs => do
    match ← typeOf lhs with
    | .int =>
      lower lhs
      unbox .int
      lower rhs
      unbox .int
      condition .ifIcmpne
    | .bool =>
      lower lhs
      unbox .bool
      lower rhs
      unbox .bool
      condition .ifIcmpne
    | .list _ | .fptr _ _ =>
      lower lhs
      lower rhs
      condition .ifAcmpne
    | other => unsupported (.equalityOf other)
  | .unary .not operand => do
    lower operand
    unbox .bool
    instr .iconst1
    instr .ixor
    box .bool
  | .unary .neg operand => do
    lower operand
    unbox .int
    instr .ineg
    box .int
  | .index list position => do
    match (← typeOf (.index list position)).className? with
    | none => unsupported .indexOfVoids
    | some name =>
      lower list
      lower position
      unbox .int
      instr (.invoke .listGetElement)
      instr (.checkcast name)
  | .append list element => do
    lower list
    instr .dup
    lower element
    instr (.invoke .listAddElement)
  | .size list => do
    lower list
    instr (.invoke .listGetSize)
    box .int
  | .call target args => do
    let result ← callResult target
    lower target
    instrs [.new arrayListClass, .dup, .invoke .arrayListInit]
    lowerArgs args
    instr (.invoke .fptrInvoke)
    narrowResult result
  | .field _ name => unsupported (.fieldAccess name)

/-- Code that adds arguments to the argument list on the stack. A list is copied
    first, so that the callee cannot change it. -/
def lowerArgs : List Expr → Gen Unit
  | [] => Gen.pure ()
  | arg :: rest => do
    instr .dup
    match ← typeOf arg with
    | .list _ =>
      instrs [.new listClass, .dup]
      lower arg
      instr (.invoke .listCopy)
    | _ => lower arg
    instr (.invoke .arrayListAdd)
    instr .pop
    lowerArgs rest

end

end Expr

end JasminGen
