/-
  JasminGen.Proofs.Effect

  What instructions take from the operand stack and leave on it. For calls this is what
  the descriptor of the called method says, and `Method.reference_eq` proves that the
  descriptors here are the ones in the assembly text.

  Main definitions: `Descriptor`, `Method.params`, `Method.result?`, `Instr.pops`,
  `Instr.pushes`.
-/

import JasminGen.Code.Instr

namespace JasminGen

/-- The type of a parameter or result of a called method. -/
inductive Descriptor where
  | int
  | boolean
  | reference (className : String)
  deriving DecidableEq

def Descriptor.text : Descriptor → String
  | .int => "I"
  | .boolean => "Z"
  | .reference className => "L" ++ className ++ ";"

namespace Method

/-- The class that declares a method. -/
def owner : Method → String
  | .objectInit => objectClass
  | .integerValueOf | .integerIntValue => "java/lang/Integer"
  | .booleanValueOf | .booleanBooleanValue => "java/lang/Boolean"
  | .listInit | .listCopy | .listGetElement | .listAddElement | .listGetSize => listClass
  | .fptrInit | .fptrInvoke => fptrClass
  | .arrayListInit | .arrayListAdd => arrayListClass
  | .printlnInt | .printlnBool => "java/io/PrintStream"
  | .constructor className => className

def name : Method → String
  | .objectInit | .listInit | .listCopy | .fptrInit | .arrayListInit | .constructor _ => "<init>"
  | .integerValueOf | .booleanValueOf => "valueOf"
  | .integerIntValue => "intValue"
  | .booleanBooleanValue => "booleanValue"
  | .listGetElement => "getElement"
  | .listAddElement => "addElement"
  | .listGetSize => "getSize"
  | .fptrInvoke => "invoke"
  | .arrayListAdd => "add"
  | .printlnInt | .printlnBool => "println"

/-- The types of the parameters, without the receiver. -/
def params : Method → List Descriptor
  | .objectInit | .integerIntValue | .booleanBooleanValue | .listInit | .listGetSize
  | .arrayListInit | .constructor _ => []
  | .integerValueOf | .listGetElement | .printlnInt => [.int]
  | .booleanValueOf | .printlnBool => [.boolean]
  | .listCopy => [.reference listClass]
  | .listAddElement | .arrayListAdd => [.reference objectClass]
  | .fptrInit => [.reference objectClass, .reference "java/lang/String"]
  | .fptrInvoke => [.reference arrayListClass]

/-- The type of the result, if there is one. -/
def result? : Method → Option Descriptor
  | .objectInit | .listInit | .listCopy | .listAddElement | .fptrInit | .arrayListInit
  | .printlnInt | .printlnBool | .constructor _ => none
  | .integerValueOf => some (.reference "java/lang/Integer")
  | .booleanValueOf => some (.reference "java/lang/Boolean")
  | .integerIntValue | .listGetSize => some .int
  | .booleanBooleanValue | .arrayListAdd => some .boolean
  | .listGetElement | .fptrInvoke => some (.reference objectClass)

/-- The name of a method in the assembly text is made of these parts. -/
theorem reference_eq (m : Method) :
    m.reference = m.owner ++ "/" ++ m.name ++ "(" ++ String.join (m.params.map Descriptor.text) ++
      ")" ++ (m.result?.map Descriptor.text).getD "V" := by
  cases m with
  | constructor className =>
      have htail : "/<init>()V" = "/" ++ ("<init>" ++ ("(" ++ (String.join [] ++ (")" ++ "V")))) := by
        decide
      simp only [reference, owner, name, params, result?, List.map_nil, Option.map_none,
        Option.getD_none, String.append_assoc, htail]
  | _ => decide

/-- Whether a method is called on an object. -/
def hasReceiver (m : Method) : Bool :=
  m.opcode != .invokestatic

end Method

namespace Branch

/-- How many values a branch compares. -/
def pops : Branch → Nat
  | .ifeq | .ifne | .ifgt => 1
  | .ifIcmpne | .ifIcmpge | .ifIcmple | .ifAcmpne => 2

end Branch

namespace Instr

/-- How many values an instruction takes from the operand stack. -/
def pops : Instr → Nat
  | .nop | .aconstNull | .iconst0 | .iconst1 | .ldcInt _ | .ldcText _ | .aload _ | .iload _
  | .decrement _ | .goto _ | .ret | .getSystemOut | .new _ => 0
  | .astore _ | .istore _ | .pop | .dup | .ineg | .areturn | .checkcast _ => 1
  | .iadd | .isub | .imul | .idiv | .ixor | .putfield _ _ _ => 2
  | .branch condition _ => condition.pops
  | .invoke method => method.params.length + if method.hasReceiver then 1 else 0

/-- How many values an instruction leaves on the operand stack in their place. -/
def pushes : Instr → Nat
  | .nop | .decrement _ | .goto _ | .ret | .astore _ | .istore _ | .pop | .areturn
  | .putfield _ _ _ | .branch _ _ => 0
  | .aconstNull | .iconst0 | .iconst1 | .ldcInt _ | .ldcText _ | .aload _ | .iload _
  | .getSystemOut | .new _ | .ineg | .checkcast _ | .iadd | .isub | .imul | .idiv | .ixor => 1
  | .dup => 2
  | .invoke method => if method.result?.isSome then 1 else 0

end Instr

end JasminGen
