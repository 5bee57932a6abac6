/-
  JasminGen.Output.Line

  How a line stands in a unit: directives flush left, label declarations behind
  one tab, everything else behind two. White space around a line is dropped, and
  an empty line stays empty.

  Main functions: `formatLine`, `formatText`.
-/

import JasminGen.Text.Blank
import JasminGen.Text.Lines

namespace JasminGen

open Text (isBlank trim lines)

/-- A line declares a label if it ends with a colon, has no white space in it and
    is no comment. -/
def declaresLabel (line : List Char) : Bool :=
  line.head? != some ';' && line.getLast? == some ':' && !line.any isBlank

/-- What stands before a trimmed line. -/
def indent (line : List Char) : List Char :=
  if line.isEmpty || line.head? == some '.' then []
  else if declaresLabel line then ['\t']
  else ['\t', '\t']

/-- A line as it stands in a unit, with its line end. -/
def formatLine (line : List Char) : List Char :=
  indent (trim line) ++ trim line ++ ['\n']

/-- The lines of a text as they stand in a unit. -/
def formatText (text : String) : List String :=
  (lines text.toList).map fun line => String.ofList (formatLine line)

end JasminGen
