/-
  JasminGen.Codegen.Stmt

  Code for statements. The code of a statement leaves the stack as it was. With
  debugging on, each statement but a block is preceded by a comment that shows it.

  Main functions: `Stmt.lower`, `Stmt.lowerAll`.
-/

import JasminGen.Codegen.Expr
import JasminGen.Stmt.Printer

namespace JasminGen

open Gen

namespace Stmt

/-- The comment before the code of a statement. -/
def comment (s : Stmt) : Gen Unit := do
  let options := (← setting).options
  match s with
  | .block _ => Gen.pure ()
  | _ => if options.debug then emit (.comment (options.strip (s.render options.colored)))

/-- Store the value on the stack in a variable. -/
def store (name : String) : Gen Unit := do
  instr (.astore (← slotOf name))

/-- Drop the result of a call, if it has one. -/
def dropResult : Ty → Gen Unit
  | .fptr _ .void => Gen.pure ()
  | .fptr _ _ => instr .pop
  | _ => Gen.pure ()

/-- Print the value of an expression. -/
def lowerDisplay (value : Expr) : Gen Unit := do
  match ← typeOf value with
  | .int =>
    instr .getSystemOut
    value.lower
    unbox .int
    instr (.invoke .printlnInt)
  | .bool =>
    instr .getSystemOut
    value.lower
    unbox .bool
    instr (.invoke .printlnBool)
  | other => unsupported (.displayOf other)

/-- Assign to a variable; nothing else can be assigned to. -/
def lowerAssign (value : Expr) : Expr → Gen Unit
  | .ident name => do
    value.lower
    store name
  | target => do
    let options := (← setting).options
    unsupported (.assignment (options.strip (target.render options.colored)))

mutual

/-- Code for a statement. -/
def lower : Stmt → Gen Unit
  | .block body => lowerAll body
  | .declare name ty value => do
    comment (.declare name ty value)
    match value with
    | some e => e.lower
    | none => zeroValue ty
    store name
  | .assign target value => do
    comment (.assign target value)
    lowerAssign value target
  | .cond test positive negative => do
    comment (.cond test positive negative)
    let otherwise ← freshLabel
    let after ← freshLabel
    test.lower
    unbox .bool
    instr (.branch .ifeq otherwise)
    positive.lower
    instr (.goto after)
    declareLabel otherwise
    instr .nop
    lowerOption negative
    declareLabel after
    instr .nop
  | .loop count body => do
    comment (.loop count body)
    let counter ← freshSlot
    let start ← freshLabel
    let check ← freshLabel
    count.lower
    unbox .int
    instr (.istore counter)
    instr (.goto check)
    declareLabel start
    body.lower
    instr (.decrement counter)
    declareLabel check
    instr (.iload counter)
    instr (.branch .ifgt start)
  | .call target args => do
    comment (.call target args)
    let ty ← typeOf target
    (Expr.call target args).lower
    dropResult ty
  | .ret none => do
    comment (.ret none)
    instr .ret
  | .ret (some value) => do
    comment (.ret (some value))
    let ty ← typeOf value
    value.lower
    if ty.isVoid then instr .ret else instr .areturn
  | .display value => do
    comment (.display value)
    lowerDisplay value
  | .append list element => do
    comment (.append list element)
    (Expr.append list element).lower
    instr .pop
  | .size list => do
    comment (.size list)
    (Expr.size list).lower
    instr .pop

/-- Code for a statement that may be missing. -/
def lowerOption : Option Stmt → Gen Unit
  | none => Gen.pure ()
  | some s => s.lower

/-- Code for statements in a row. -/
def lowerAll : List Stmt → Gen Unit
  | [] => Gen.pure ()
  | s :: rest => do
    s.lower
    lowerAll rest

end

end Stmt

end JasminGen
