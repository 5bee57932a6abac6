/-
  JasminGen.Codegen.Value

  Code for boxed values: boxing and unboxing, the value a variable starts with,
  and the boolean that a comparison gives.

  Main functions: `Gen.box`, `Gen.unbox`, `Gen.zeroValue`, `Gen.condition`.
-/

import JasminGen.Codegen.Gen

namespace JasminGen

namespace Gen

/-- Turn the wrapper on the stack into the primitive value of the type. -/
def unbox : Ty → Gen Unit
  | .int => instr (.invoke .integerIntValue)
  | .bool => instr (.invoke .booleanBooleanValue)
  | other => unsupported (.unboxingOf other)

/-- Turn the primitive value on the stack into the wrapper of the type. -/
def box : Ty → Gen Unit
  | .int => instr (.invoke .integerValueOf)
  | .bool => instr (.invoke .booleanValueOf)
  | other => unsupported (.boxingOf other)

/-- Push the value that a variable of the type starts with. -/
def zeroValue : Ty → Gen Unit
  | .int => do
    instr .iconst0
    box .int
  | .bool => do
    instr .iconst0
    box .bool
  | .list _ => instrs [.new listClass, .dup, .invoke .listInit]
  | .struct name => do
    match ← lookupStruct name with
    | some layout => instrs [.new layout.name, .dup, .invoke (.constructor layout.name)]
    | none => fail (.unresolved .struct name)
  | .fptr _ _ => instr .aconstNull
  | .void => unsupported .voidVariable

/-- Turn the two operands of a comparison into a boolean. The branch is taken when
    the comparison does not hold. -/
def condition (negated : Branch) : Gen Unit := do
  let otherwise ← freshLabel
  let after ← freshLabel
  instr (.branch negated otherwise)
  instr .iconst1
  instr (.goto after)
  declareLabel otherwise
  instr .iconst0
  declareLabel after
  box .bool

end Gen

end JasminGen
