/-
  JasminGen.Output.Sink

  Where assembly units go, and writing into one unit at a time.

  A sink creates a unit and gives a writer for it. At most one unit is open. Every
  request into it is flushed before the next one, so what a failed run has written
  can be read. A write that is interrupted is made again, every other error is final.

  Main definitions: `Sink`, `Sink.writeAll`, `Output`, `Output.openUnit`,
  `Output.closeUnit`, `Output.perform`.
-/

import JasminGen.Attempt
import JasminGen.Code.Emission
import JasminGen.Error
import JasminGen.Output.Line

namespace JasminGen

/-- Destinations of units. `ω` is what writes into one of them. Writes can be interrupted,
    but not forever: a sink knows a bound, and each interrupted write uses some of it up. -/
class Sink (σ : Type) (ω : outParam Type) where
  /-- Create a unit, or empty the one of that name. -/
  createUnit : String → Attempt OutputError σ ω
  /-- Write a whole text, or fail. -/
  write : ω → String → Attempt OutputError σ Unit
  flush : ω → Attempt OutputError σ Unit
  /-- Put the support classes next to the units. -/
  installSupport : Attempt OutputError σ Unit
  /-- How many more writes can be interrupted. -/
  interruptions : σ → Nat
  interruptions_lt : ∀ {writer : ω} {text : String} {s s' : σ},
    write writer text s = (.error .interrupted, s') → interruptions s' < interruptions s

namespace Sink

variable {σ ω : Type} [Sink σ ω]

/-- Write a text, and make a write that is interrupted again, at most so many times. -/
def writeAgain (writer : ω) (text : String) : Nat → Attempt OutputError σ Unit
  | 0 => write writer text
  | again + 1 => fun s =>
    match write writer text s with
    | (.error .interrupted, s') => writeAgain writer text again s'
    | answer => answer

/-- Write a text. A write that is interrupted is made again until it is not. -/
def writeAll (writer : ω) (text : String) : Attempt OutputError σ Unit := fun s =>
  writeAgain writer text (interruptions s) s

/-- A write that is not interrupted is made once. -/
theorem writeAgain_of_ne {writer : ω} {text : String} {s : σ}
    (h : (write writer text s).1 ≠ .error .interrupted) (again : Nat) :
    writeAgain writer text again s = write writer text s := by
  cases again with
  | zero => rfl
  | succ again =>
      simp only [writeAgain]
      split
      · rename_i s' hwrite
        exact absurd (congrArg Prod.fst hwrite) h
      · rfl

theorem writeAgain_interrupted {writer : ω} {text : String} {s s' : σ}
    (h : write writer text s = (.error .interrupted, s')) (again : Nat) :
    writeAgain writer text (again + 1) s = writeAgain writer text again s' := by
  simp only [writeAgain, h]

/-- Attempts beyond the bound on interruptions change nothing. -/
theorem writeAgain_eq {writer : ω} {text : String} {m n : Nat} {s : σ}
    (hm : interruptions s ≤ m) (hn : interruptions s ≤ n) :
    writeAgain writer text m s = writeAgain writer text n s := by
  induction m generalizing n s with
  | zero =>
      have hwrite : (write writer text s).1 ≠ .error .interrupted := by
        intro h
        have hlt := interruptions_lt (Prod.ext h rfl : write writer text s = (_, _))
        omega
      rw [writeAgain_of_ne hwrite, writeAgain_of_ne hwrite]
  | succ m ih =>
      by_cases h : (write writer text s).1 = .error .interrupted
      · have hwrite : write writer text s = (.error .interrupted, (write writer text s).2) :=
          Prod.ext h rfl
        have hlt := interruptions_lt hwrite
        obtain ⟨k, rfl⟩ := Nat.exists_eq_add_one_of_ne_zero (by omega : n ≠ 0)
        rw [writeAgain_interrupted hwrite, writeAgain_interrupted hwrite]
        exact ih (by omega) (by omega)
      · rw [writeAgain_of_ne h, writeAgain_of_ne h]

theorem writeAll_of_ne {writer : ω} {text : String} {s : σ}
    (h : (write writer text s).1 ≠ .error .interrupted) :
    writeAll writer text s = write writer text s :=
  writeAgain_of_ne h _

theorem writeAll_ok {writer : ω} {text : String} {s s' : σ}
    (h : write writer text s = (.ok (), s')) : writeAll writer text s = (.ok (), s') := by
  rw [writeAll_of_ne (by rw [h]; exact nofun), h]

/-- A write that is interrupted is made again. -/
theorem writeAll_interrupted {writer : ω} {text : String} {s s' : σ}
    (h : write writer text s = (.error .interrupted, s')) :
    writeAll writer text s = writeAll writer text s' := by
  have hlt := interruptions_lt h
  obtain ⟨k, hk⟩ := Nat.exists_eq_add_one_of_ne_zero (by omega : interruptions s ≠ 0)
  rw [writeAll, hk, writeAgain_interrupted h]
  exact writeAgain_eq (by omega) (Nat.le_refl _)

end Sink

/-- A unit that is being written. -/
structure OpenUnit (ω : Type) where
  name : String
  writer : ω

/-- A sink with the unit that is open. -/
structure Output (σ ω : Type) where
  unit : Option (OpenUnit ω)
  sink : σ

namespace Output

variable {σ ω : Type}

/-- Use the sink of an output; its errors are errors of the generation. -/
def useSink {α : Type} (use : Attempt OutputError σ α) : Attempt GenError (Output σ ω) α :=
  fun out =>
    match use out.sink with
    | (.ok a, sink) => (.ok a, ⟨out.unit, sink⟩)
    | (.error reason, sink) => (.error (.output reason), ⟨out.unit, sink⟩)

variable [Sink σ ω]

/-- Create a unit in the sink. -/
def createUnit (name : String) : Attempt GenError (Output σ ω) ω :=
  useSink (Sink.createUnit name)

/-- Start writing into a unit. The writer is dropped if another unit is open. -/
def setUnit (name : String) (writer : ω) : Attempt GenError (Output σ ω) Unit := do
  match (← get).unit with
  | some u => throw (.unitAlreadyOpen u.name name)
  | none => modify fun out => ⟨some ⟨name, writer⟩, out.sink⟩

/-- Create a unit and start writing into it. Nothing is created while another unit
    is open. -/
def openUnit (name : String) : Attempt GenError (Output σ ω) Unit := do
  match (← get).unit with
  | some u => throw (.unitAlreadyOpen u.name name)
  | none =>
    let writer ← createUnit name
    modify fun out => ⟨some ⟨name, writer⟩, out.sink⟩

/-- Stop writing into the open unit, which is flushed once more. -/
def closeUnit : Attempt GenError (Output σ ω) Unit := do
  match (← get).unit with
  | none => throw .noOpenUnit
  | some u =>
    modify fun out => ⟨none, out.sink⟩
    useSink (Sink.flush u.writer)

/-- Write lines one by one. -/
def writeLines (writer : ω) : List String → Attempt GenError (Output σ ω) Unit
  | [] => pure ()
  | line :: rest => do
    useSink (Sink.writeAll writer line)
    writeLines writer rest

/-- Write the lines of a text into the open unit, and flush it. -/
def emitText (text : String) : Attempt GenError (Output σ ω) Unit := do
  match (← get).unit with
  | none => throw .noOpenUnit
  | some u =>
    writeLines u.writer (formatText text)
    useSink (Sink.flush u.writer)

/-- Write texts one after another. -/
def emitTexts : List String → Attempt GenError (Output σ ω) Unit
  | [] => pure ()
  | text :: rest => do
    emitText text
    emitTexts rest

/-- Write what a request asks for. -/
def perform (emission : Emission) : Attempt GenError (Output σ ω) Unit :=
  emitTexts emission.texts

end Output

end JasminGen
