/-
  JasminGen.Code.Opcode

  The machine operations that generated code uses, with their assembly names.
-/

namespace JasminGen

inductive Opcode where
  | nop
  | aconstNull
  | iconst0
  | iconst1
  | ldc
  | aload
  | astore
  | iload
  | istore
  | iinc
  | pop
  | dup
  | iadd
  | isub
  | imul
  | idiv
  | ineg
  | ixor
  | ifeq
  | ifne
  | ifgt
  | ifIcmpne
  | ifIcmpge
  | ifIcmple
  | ifAcmpne
  | goto
  | ret
  | areturn
  | getstatic
  | putfield
  | invokevirtual
  | invokespecial
  | invokestatic
  | new
  | checkcast
  deriving DecidableEq

/-- The assembly name of an operation. -/
def Opcode.mnemonic : Opcode → String
  | .nop => "nop"
  | .aconstNull => "aconst_null"
  | .iconst0 => "iconst_0"
  | .iconst1 => "iconst_1"
  | .ldc => "ldc"
  | .aload => "aload"
  | .astore => "astore"
  | .iload => "iload"
  | .istore => "istore"
  | .iinc => "iinc"
  | .pop => "pop"
  | .dup => "dup"
  | .iadd => "iadd"
  | .isub => "isub"
  | .imul => "imul"
  | .idiv => "idiv"
  | .ineg => "ineg"
  | .ixor => "ixor"
  | .ifeq => "ifeq"
  | .ifne => "ifne"
  | .ifgt => "ifgt"
  | .ifIcmpne => "if_icmpne"
  | .ifIcmpge => "if_icmpge"
  | .ifIcmple => "if_icmple"
  | .ifAcmpne => "if_acmpne"
  | .goto => "goto"
  | .ret => "return"
  | .areturn => "areturn"
  | .getstatic => "getstatic"
  | .putfield => "putfield"
  | .invokevirtual => "invokevirtual"
  | .invokespecial => "invokespecial"
  | .invokestatic => "invokestatic"
  | .new => "new"
  | .checkcast => "checkcast"

end JasminGen
