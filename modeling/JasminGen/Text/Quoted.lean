/-
  JasminGen.Text.Quoted

  A text in double quotes, with escapes for the characters that would not show.

  Main function: `quote`.
-/

import JasminGen.Text.Graphic

namespace JasminGen.Text

/-- A character between double quotes. -/
def quoteChar (c : Char) : String :=
  if c.toNat = 0 then "\\0"
  else if c = '\t' then "\\t"
  else if c = '\r' then "\\r"
  else if c = '\n' then "\\n"
  else if c = '"' then "\\\""
  else if c = '\\' then "\\\\"
  else if isGraphic c then String.singleton c
  else "\\u\x7b" ++ String.ofList (Nat.toDigits 16 c.toNat) ++ "\x7d"

/-- A text in double quotes. -/
def quote (text : String) : String :=
  "\"" ++ String.join (text.toList.map quoteChar) ++ "\""

end JasminGen.Text
