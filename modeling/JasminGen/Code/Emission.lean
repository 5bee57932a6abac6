/-
  JasminGen.Code.Emission

  Requests to write into an assembly unit, and the code they are made from.

  A request is one or more texts. Each text is written line by line and then
  flushed. Code is what the generator produces: instructions, label declarations
  and the directives around them.

  Main definitions: `Emission`, `Emission.texts`, `Code`, `Code.emission`.
-/

import JasminGen.Code.Instr
import JasminGen.Text.Lines

namespace JasminGen

/-- A request to write into the open unit. -/
inductive Emission where
  | text (text : String)
  | instruction (op : Opcode)
  | instructionWith (op : Opcode) (operand : String)
  | label (label : Label)
  | comment (text : String)
  deriving DecidableEq

/-- The texts of a request. Every line of a comment is a text of its own, so that
    no line of it is taken for an instruction. -/
def Emission.texts : Emission → List String
  | .text t => [t]
  | .instruction op => [op.mnemonic]
  | .instructionWith op operand => [op.mnemonic ++ " " ++ operand]
  | .label l => [l.text ++ ":"]
  | .comment t => (Text.lines t.toList).map fun line => "; " ++ String.ofList line

/-- Capacity of the operand stack that every method declares. -/
def stackLimit : Nat := 128

/-- Number of local slots that every method declares. -/
def localsLimit : Nat := 128

/-- A piece of generated code. -/
inductive Code where
  | instr (instr : Instr)
  | label (label : Label)
  /-- The directives a class starts with. -/
  | classHeader (name : String)
  | field (name : String) (ty : Ty)
  /-- The directives a method starts with, after an empty line. -/
  | methodHeader (signature : String)
  | endMethod
  /-- The instructions of the static entry method and its end. -/
  | entryBody
  deriving DecidableEq

/-- The static entry method makes an instance of its class and returns. -/
def entryInstrs : List Instr :=
  [.new entryClass, .dup, .invoke (.constructor entryClass), .ret]

/-- The request that writes a piece of code. -/
def Code.emission : Code → Emission
  | .instr i =>
    match i.operand? with
    | none => .instruction i.opcode
    | some operand => .instructionWith i.opcode operand
  | .label l => .label l
  | .classHeader name => .text (".class public " ++ name ++ "\n.super " ++ objectClass ++ "\n")
  | .field name ty => .text (".field public " ++ name ++ " " ++ ty.descriptor)
  | .methodHeader signature =>
    .text ("\n.method " ++ signature ++ "\n.limit stack " ++ toString stackLimit ++
      "\n.limit locals " ++ toString localsLimit ++ "\n")
  | .endMethod => .text ".end method"
  | .entryBody =>
    .text (String.join (entryInstrs.map fun i => i.text ++ "\n") ++ ".end method\n")

end JasminGen
