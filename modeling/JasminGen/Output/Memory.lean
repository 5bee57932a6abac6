/-
  JasminGen.Output.Memory

  A sink that keeps units as texts, ordered by name. A writer is the name of its
  unit: it goes on working when the unit is created again or replaced.

  Main definitions: `Memory`, `Memory.unit?`, `Memory.unitNames`,
  `Memory.writeBytes`.
-/

import JasminGen.Code.Support
import JasminGen.Output.Sink
import JasminGen.Text.Utf8

namespace JasminGen

/-- Units by name, in increasing order of the names. -/
structure Memory where
  units : List (String × String)

namespace Memory

def empty : Memory := ⟨[]⟩

/-- The text of a unit. -/
def unit? (memory : Memory) (name : String) : Option String :=
  memory.units.lookup name

def unitNames (memory : Memory) : List String :=
  memory.units.map Prod.fst

/-- Change the text of a unit in an ordered list; a unit that is not there has the
    empty text. -/
def alterIn (name : String) (change : String → String) :
    List (String × String) → List (String × String)
  | [] => [(name, change "")]
  | (other, text) :: rest =>
    if name < other then (name, change "") :: (other, text) :: rest
    else if name = other then (other, change text) :: rest
    else (other, text) :: alterIn name change rest

/-- Give a unit a text. -/
def set (memory : Memory) (name text : String) : Memory :=
  ⟨alterIn name (fun _ => text) memory.units⟩

/-- Add to the text of a unit. -/
def append (memory : Memory) (name text : String) : Memory :=
  ⟨alterIn name (fun old => old ++ text) memory.units⟩

/-- Set the units of the support classes to their sources. -/
def install (memory : Memory) : Memory :=
  supportClasses.foldl (fun m c => m.set c.name c.source) memory

/-- Write bytes through a writer. Bytes that are no text change nothing. -/
def writeBytes (name : String) (bytes : List UInt8) : Attempt OutputError Memory Nat := do
  match Text.decodeUtf8 bytes with
  | .error reason => throw (.malformed reason)
  | .ok text =>
    modify fun m => m.append name (String.ofList text)
    pure bytes.length

instance : Sink Memory String where
  createUnit name := do
    modify fun m => m.set name ""
    pure name
  write name text := modify fun m => m.append name text
  flush _ := pure ()
  installSupport := modify install
  interruptions _ := 0
  interruptions_lt h := by cases h

end Memory

end JasminGen
