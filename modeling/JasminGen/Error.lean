/-
  JasminGen.Error

  Why code generation fails, and the text that says so.

  Main definitions: `GenError`, `GenError.message`, `Failure`.
-/

import JasminGen.Index
import JasminGen.Ty

namespace JasminGen

/-- The bytes of a write that are no text: how many come before the malformed
    sequence, and how long that sequence is. It has no length if the bytes end
    inside of it. -/
structure Malformed where
  validUpTo : Nat
  length : Option Nat
  deriving DecidableEq

def Malformed.message (m : Malformed) : String :=
  match m.length with
  | some n =>
    "invalid utf-8 sequence of " ++ toString n ++ " bytes from index " ++ toString m.validUpTo
  | none => "incomplete utf-8 byte sequence from index " ++ toString m.validUpTo

/-- Why an output could not be created or written. -/
inductive OutputError where
  | notFound
  | alreadyExists
  | notADirectory
  | isADirectory
  | invalidFilename
  | invalidInput
  | linkLoop
  /-- The call was stopped before it did anything, and can be made again. -/
  | interrupted
  | malformed (reason : Malformed)
  | other (text : String)
  deriving DecidableEq

/-- The text of an output error, if it has one of its own. -/
def OutputError.message? : OutputError → Option String
  | .malformed reason => some reason.message
  | .other text => some text
  | _ => none

/-- What a name was looked up as. -/
inductive SymbolKind where
  | function
  | struct
  | variable
  deriving DecidableEq

def SymbolKind.text : SymbolKind → String
  | .function => "function"
  | .struct => "struct"
  | .variable => "variable"

/-- Source constructs for which there is no code. -/
inductive Construct where
  /-- A struct of the name of a class that every program has. -/
  | reservedStruct (name : String)
  /-- A field used as a variable inside its struct. -/
  | fieldAsVariable (name : String)
  /-- A function used as a value inside a struct. -/
  | functionInStruct (name : String)
  | fieldAccess (name : String)
  /-- The static type of a field access. -/
  | fieldType
  | assignment (target : String)
  | displayOf (ty : Ty)
  | equalityOf (ty : Ty)
  | callOf (ty : Ty)
  | indexOf (ty : Ty)
  | indexOfVoids
  | unboxingOf (ty : Ty)
  | boxingOf (ty : Ty)
  | voidVariable
  /-- Anything else, described by a text. -/
  | described (text : String)
  deriving DecidableEq

/-- A text in the quotation marks of messages. -/
def ticked (text : String) : String := "`" ++ text ++ "`"

def Construct.text : Construct → String
  | .reservedStruct name => "struct " ++ ticked name ++ " shares its name with a generated class"
  | .fieldAsVariable name => "reference to struct field " ++ ticked name
  | .functionInStruct name => "function pointer to " ++ ticked name ++ " inside a struct"
  | .fieldAccess name => "access to struct field " ++ ticked name
  | .fieldType => "struct field access"
  | .assignment target => "assignment to " ++ ticked target
  | .displayOf ty => "display of a value of type " ++ ticked ty.render
  | .equalityOf ty => "equality between values of type " ++ ticked ty.render
  | .callOf ty => "calling a value of type " ++ ticked ty.render
  | .indexOf ty => "indexing into a value of type " ++ ticked ty.render
  | .indexOfVoids => "indexing into a list of void"
  | .unboxingOf ty => "unboxing a value of type " ++ ticked ty.render
  | .boxingOf ty => "boxing a value of type " ++ ticked ty.render
  | .voidVariable => "a variable of type `void`"
  | .described text => text

/-- Why code generation ends without a result. -/
inductive GenError where
  | unresolved (kind : SymbolKind) (name : String)
  | unknownScope (name : String)
  | unsupported (construct : Construct)
  | noOpenUnit
  | unitAlreadyOpen (opened requested : String)
  | scopeUnderflow
  | output (reason : OutputError)
  deriving DecidableEq

/-- The text of an error; output errors may have none of their own. -/
def GenError.message? : GenError → Option String
  | .unresolved kind name =>
    some (kind.text ++ " " ++ ticked name ++ " is not defined in the active scope")
  | .unknownScope name => some ("no scope named " ++ ticked name ++ " exists in the symbol table")
  | .unsupported construct => some ("unsupported construct: " ++ construct.text)
  | .noOpenUnit => some "no output unit is open"
  | .unitAlreadyOpen opened requested =>
    some ("cannot open unit " ++ ticked requested ++ " while " ++ ticked opened ++ " is still open")
  | .scopeUnderflow => some "scope stack underflow"
  | .output reason => reason.message?

/-- How a run ends early: by an error, or by a fault. -/
inductive Failure where
  | error (reason : GenError)
  | fault (reason : Fault)
  deriving DecidableEq

namespace Failure

def unresolved (kind : SymbolKind) (name : String) : Failure :=
  .error (.unresolved kind name)

def unsupported (construct : Construct) : Failure :=
  .error (.unsupported construct)

/-- A computation that can only end in a fault, as one that can fail in any way. -/
def ofFault {α : Type} : Except Fault α → Except Failure α
  | .ok a => .ok a
  | .error reason => .error (.fault reason)

end Failure

end JasminGen
