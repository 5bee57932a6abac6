/-
  JasminGen.FileSystem.Path

  Paths: as texts, and as the places of a file system.

  Main definitions: `Place`, `Path.join`, `Path.parse`.
-/

import JasminGen.Error

namespace JasminGen

/-- A place in a file system: the names on the way to it, the innermost first. The
    top directory is the empty list. -/
abbrev Place := List String

namespace Path

/-- The longest name, in bytes. -/
def nameLimit : Nat := 255

/-- The longest path, in bytes. -/
def pathLimit : Nat := 4095

/-- A path below another one; an absolute path stands for itself. -/
def join (base path : String) : String :=
  if path.toList.head? = some '/' then path
  else if base.isEmpty ∨ base.toList.getLast? = some '/' then base ++ path
  else base ++ "/" ++ path

/-- The pieces of a text between slashes. -/
def pieces : List Char → List (List Char)
  | [] => [[]]
  | c :: rest =>
    if c = '/' then [] :: pieces rest
    else match pieces rest with
      | [] => [[c]]
      | piece :: more => (c :: piece) :: more

/-- The names of a path, the last first, from its pieces in the same order. Single
    dots in between say nothing. One at the end stays: it asks for the directory
    before it. -/
def namesOf : List (List Char) → List String
  | [] => []
  | last :: rest => String.ofList last :: (rest.filter (· != ['.'])).map String.ofList

/-- The names in a path, the last first. A path with a NUL in it and one that is too
    long are refused. The empty path leads nowhere: the top directory is a dot or a
    slash. -/
def parse (path : String) : Except OutputError (List String) :=
  let text := path.toList
  if text.any fun c => c.toNat == 0 then .error .invalidInput
  else if pathLimit < path.utf8ByteSize then .error .invalidFilename
  else if path = "" then .error .notFound
  else .ok (namesOf ((pieces text).filter (· != [])).reverse)

end Path

end JasminGen
