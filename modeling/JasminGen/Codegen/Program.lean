/-
  JasminGen.Codegen.Program

  Code for definitions and programs. Each struct becomes a class with a
  constructor. The class `Main` holds the rest: a static entry method that makes an
  instance, a constructor that runs the program's body, and one method for each
  function. So all code of the program has an instance of `Main` as its receiver,
  which function pointers hold.

  Main functions: `StructDef.lower`, `FunctionDef.lower`, `lowerEntry`,
  `Program.lower`.
-/

import JasminGen.Codegen.Stmt

namespace JasminGen

open Gen

/-- Call the constructor of the superclass. -/
def superCall : Gen Unit :=
  instrs [.aload receiverSlot, .invoke .objectInit]

/-- Start a constructor without parameters. -/
def beginConstructor : Gen Unit := do
  beginMethod []
  code (.methodHeader "public <init>()V")
  superCall

/-- Classes that every program has, whose names no struct can take. -/
def reservedClasses : List String := [entryClass, listClass, fptrClass]

namespace FieldDef

/-- Push the value a field starts with. A struct inside a struct starts as null,
    since a struct that holds itself could not be made otherwise. -/
def initial (field : FieldDef) : Gen Unit :=
  match field.value, field.ty with
  | some e, _ => e.lower
  | none, .struct _ => instr .aconstNull
  | none, ty => zeroValue ty

end FieldDef

namespace StructDef

/-- The directives of fields. -/
def declareFields : List FieldDef → Gen Unit
  | [] => Gen.pure ()
  | field :: rest => do
    code (.field field.name field.ty)
    declareFields rest

/-- Set fields of the receiver to the values they start with. -/
def initFields (className : String) : List FieldDef → Gen Unit
  | [] => Gen.pure ()
  | field :: rest => do
    instr (.aload receiverSlot)
    field.initial
    instr (.putfield className field.name field.ty)
    initFields className rest

/-- The class of a struct. -/
def lower (s : StructDef) : Gen Unit := do
  report "Lowering" "struct" s.name
  if s.name ∈ reservedClasses then
    unsupported (.reservedStruct s.name)
  else
    enterScope .struct s.name
    openUnit .struct s.name
    code (.classHeader s.name)
    declareFields s.fields
    beginConstructor
    initFields s.name s.fields
    instr .ret
    code .endMethod
    closeUnit
    leaveScope

end StructDef

namespace FunctionDef

/-- The method of a function. Its parameters and result are those of the symbol
    table. -/
def lower (f : FunctionDef) : Gen Unit := do
  report "Lowering" "function" f.name
  enterScope .function f.name
  match ← lookupFunction f.name with
  | none => fail (.unresolved .function f.name)
  | some signature =>
    beginMethod (signature.params.map Binding.name)
    code (.methodHeader ("public " ++ f.name ++ signature.descriptor))
    Stmt.lowerAll f.body
    if signature.result.isVoid then instr .ret
    code .endMethod
    leaveScope

/-- The methods of functions, in order. -/
def lowerAll : List FunctionDef → Gen Unit
  | [] => Gen.pure ()
  | f :: rest => do
    f.lower
    lowerAll rest

end FunctionDef

/-- The class `Main`. -/
def lowerEntry (body : List Stmt) (functions : List FunctionDef) : Gen Unit := do
  report "Lowering" "entry point" entryClass
  openUnit .entry entryClass
  code (.classHeader entryClass)
  code (.methodHeader "public static main([Ljava/lang/String;)V")
  code .entryBody
  enterScope .entry entryScopeName
  beginConstructor
  Stmt.lowerAll body
  instr .ret
  code .endMethod
  leaveScope
  FunctionDef.lowerAll functions
  closeUnit

namespace Program

/-- The classes of structs, in order. -/
def lowerStructs : List StructDef → Gen Unit
  | [] => Gen.pure ()
  | s :: rest => do
    s.lower
    lowerStructs rest

/-- All classes of a program: those of its structs, then `Main`. -/
def lower (program : Program) : Gen Unit := do
  lowerStructs program.structs
  lowerEntry program.body program.functions

end Program

end JasminGen
