/-
  JasminGen.Text.Lines

  Splitting a text into lines. A line ends at a line feed, and one carriage
  return right before that line feed belongs to the line end. A text that ends
  with a line end has no empty line after it.

  Main function: `lines`.
-/

namespace JasminGen.Text

/-- The lines of a text, without their line ends. -/
def lines : List Char → List (List Char)
  | [] => []
  | '\n' :: rest => [] :: lines rest
  | '\r' :: '\n' :: rest => [] :: lines rest
  | c :: rest =>
    match lines rest with
    | [] => [[c]]
    | line :: more => (c :: line) :: more

@[simp] theorem lines_nil : lines [] = [] := rfl

@[simp] theorem lines_lineFeed (rest : List Char) :
    lines ('\n' :: rest) = [] :: lines rest := rfl

@[simp] theorem lines_crlf (rest : List Char) :
    lines ('\r' :: '\n' :: rest) = [] :: lines rest := rfl

end JasminGen.Text
