/-
  JasminGen.Code.Instr

  Instructions of generated code. The methods that code calls are the ones of
  `Method`, so an instruction says what it does without its text being read.

  Main definitions: `Method`, `Branch`, `Instr`, `Instr.opcode`, `Instr.operand?`.
-/

import JasminGen.Code.Opcode
import JasminGen.Index
import JasminGen.Ty

namespace JasminGen

/-- The class that holds the program's body and functions. -/
def entryClass : String := "Main"

def objectClass : String := "java/lang/Object"

def arrayListClass : String := "java/util/ArrayList"

/-- The static field that holds the standard output stream. -/
def systemOut : String := "java/lang/System/out Ljava/io/PrintStream;"

/-- The methods that generated code calls. -/
inductive Method where
  | objectInit
  | integerValueOf
  | integerIntValue
  | booleanValueOf
  | booleanBooleanValue
  | listInit
  | listCopy
  | listGetElement
  | listAddElement
  | listGetSize
  | fptrInit
  | fptrInvoke
  | arrayListInit
  | arrayListAdd
  | printlnInt
  | printlnBool
  /-- The constructor without parameters of a generated class. -/
  | constructor (className : String)
  deriving DecidableEq

/-- How a method is named in the assembly text: class, name and descriptor. -/
def Method.reference : Method → String
  | .objectInit => "java/lang/Object/<init>()V"
  | .integerValueOf => "java/lang/Integer/valueOf(I)Ljava/lang/Integer;"
  | .integerIntValue => "java/lang/Integer/intValue()I"
  | .booleanValueOf => "java/lang/Boolean/valueOf(Z)Ljava/lang/Boolean;"
  | .booleanBooleanValue => "java/lang/Boolean/booleanValue()Z"
  | .listInit => "List/<init>()V"
  | .listCopy => "List/<init>(LList;)V"
  | .listGetElement => "List/getElement(I)Ljava/lang/Object;"
  | .listAddElement => "List/addElement(Ljava/lang/Object;)V"
  | .listGetSize => "List/getSize()I"
  | .fptrInit => "Fptr/<init>(Ljava/lang/Object;Ljava/lang/String;)V"
  | .fptrInvoke => "Fptr/invoke(Ljava/util/ArrayList;)Ljava/lang/Object;"
  | .arrayListInit => "java/util/ArrayList/<init>()V"
  | .arrayListAdd => "java/util/ArrayList/add(Ljava/lang/Object;)Z"
  | .printlnInt => "java/io/PrintStream/println(I)V"
  | .printlnBool => "java/io/PrintStream/println(Z)V"
  | .constructor className => className ++ "/<init>()V"

/-- Constructors are called specially, the two boxing methods statically and all
    other methods on their receiver. -/
def Method.opcode : Method → Opcode
  | .objectInit | .listInit | .listCopy | .fptrInit | .arrayListInit | .constructor _ =>
    .invokespecial
  | .integerValueOf | .booleanValueOf => .invokestatic
  | .integerIntValue | .booleanBooleanValue | .listGetElement | .listAddElement | .listGetSize
  | .fptrInvoke | .arrayListAdd | .printlnInt | .printlnBool => .invokevirtual

/-- Conditions of a jump. -/
inductive Branch where
  | ifeq
  | ifne
  | ifgt
  | ifIcmpne
  | ifIcmpge
  | ifIcmple
  | ifAcmpne
  deriving DecidableEq

def Branch.opcode : Branch → Opcode
  | .ifeq => .ifeq
  | .ifne => .ifne
  | .ifgt => .ifgt
  | .ifIcmpne => .ifIcmpne
  | .ifIcmpge => .ifIcmpge
  | .ifIcmple => .ifIcmple
  | .ifAcmpne => .ifAcmpne

/-- One instruction with its operand. -/
inductive Instr where
  | nop
  | aconstNull
  | iconst0
  | iconst1
  /-- Push an integer constant. -/
  | ldcInt (value : Int32)
  /-- Push a string constant. -/
  | ldcText (text : String)
  | aload (slot : Nat)
  | astore (slot : Nat)
  | iload (slot : Nat)
  | istore (slot : Nat)
  /-- Subtract one from an integer slot. -/
  | decrement (slot : Nat)
  | pop
  | dup
  | iadd
  | isub
  | imul
  | idiv
  | ineg
  | ixor
  | branch (condition : Branch) (target : Label)
  | goto (target : Label)
  | ret
  | areturn
  /-- Push the standard output stream. -/
  | getSystemOut
  | putfield (className field : String) (ty : Ty)
  | invoke (method : Method)
  | new (className : String)
  | checkcast (className : String)
  deriving DecidableEq

namespace Instr

def opcode : Instr → Opcode
  | .nop => .nop
  | .aconstNull => .aconstNull
  | .iconst0 => .iconst0
  | .iconst1 => .iconst1
  | .ldcInt _ => .ldc
  | .ldcText _ => .ldc
  | .aload _ => .aload
  | .astore _ => .astore
  | .iload _ => .iload
  | .istore _ => .istore
  | .decrement _ => .iinc
  | .pop => .pop
  | .dup => .dup
  | .iadd => .iadd
  | .isub => .isub
  | .imul => .imul
  | .idiv => .idiv
  | .ineg => .ineg
  | .ixor => .ixor
  | .branch condition _ => condition.opcode
  | .goto _ => .goto
  | .ret => .ret
  | .areturn => .areturn
  | .getSystemOut => .getstatic
  | .putfield _ _ _ => .putfield
  | .invoke method => method.opcode
  | .new _ => .new
  | .checkcast _ => .checkcast

/-- The text after the name of the operation, if there is any. -/
def operand? : Instr → Option String
  | .ldcInt value => some (toString value.toInt)
  | .ldcText text => some ("\"" ++ text ++ "\"")
  | .aload slot | .astore slot | .iload slot | .istore slot => some (toString slot)
  | .decrement slot => some (toString slot ++ " -1")
  | .branch _ target | .goto target => some target.text
  | .getSystemOut => some systemOut
  | .putfield className field ty => some (className ++ "/" ++ field ++ " " ++ ty.descriptor)
  | .invoke method => some method.reference
  | .new className | .checkcast className => some className
  | .nop | .aconstNull | .iconst0 | .iconst1 | .pop | .dup | .iadd | .isub | .imul | .idiv
  | .ineg | .ixor | .ret | .areturn => none

/-- An instruction in the assembly text. -/
def text (i : Instr) : String :=
  match i.operand? with
  | none => i.opcode.mnemonic
  | some operand => i.opcode.mnemonic ++ " " ++ operand

end Instr

end JasminGen
