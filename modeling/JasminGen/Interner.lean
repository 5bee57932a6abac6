/-
  JasminGen.Interner

  A table that numbers texts in the order in which they first come.

  Main functions: `Interner.insert`, `Interner.get?`, `Interner.indexOf?`.
-/

import JasminGen.Text.Quoted

namespace JasminGen

/-- The texts seen so far, in order, and the number of each of them, the latest
    first. -/
structure Interner where
  texts : Array String
  numbers : List (String × UInt32)

namespace Interner

def empty : Interner := ⟨#[], []⟩

/-- The number of a text that is in the table. -/
def indexOf? (table : Interner) (text : String) : Option UInt32 :=
  table.numbers.lookup text

/-- The text with a number. -/
def get? (table : Interner) (number : UInt32) : Option String :=
  table.texts[number.toNat]?

/-- The number of a text. A new text is added at the end, and its number is its
    place there. -/
def insert (table : Interner) (text : String) : UInt32 × Interner :=
  match table.indexOf? text with
  | some number => (number, table)
  | none =>
    let number := UInt32.ofNat table.texts.size
    (number, ⟨table.texts.push text, (text, number) :: table.numbers⟩)

/-- How a numbered text shows in diagnostics: its number as given, and the text in
    quotes. -/
def describe (number text : String) : String :=
  "InternedSymbol(" ++ number ++ ", " ++ Text.quote text ++ ")"

end Interner

end JasminGen
