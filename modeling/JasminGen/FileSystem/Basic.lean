/-
  JasminGen.FileSystem.Basic

  A file system with directories, files and symbolic links. A file is known by a
  number, so that it can still be written when its name is gone.

  Names of a path are followed one by one from the top. A symbolic link stands for
  the place it points to, `.` for the current directory and `..` for the one around
  it.

  Main functions: `FileSystem.openDir`, `FileSystem.createDirAll`,
  `FileSystem.emptyDir`, `FileSystem.createFile`, `FileSystem.writeAt`.
-/

import JasminGen.Attempt
import JasminGen.FileSystem.Path

namespace JasminGen

/-- What stands at a place. -/
inductive Node where
  | dir
  | file (number : Nat)
  | link (target : Place)
  deriving DecidableEq

/-- The places in use, except for the top directory, and the bytes of all files by
    their numbers. -/
structure FileSystem where
  nodes : List (Place × Node)
  files : Array ByteArray

namespace FileSystem

/-- A file system with nothing but its top directory. -/
def empty : FileSystem := ⟨[], #[]⟩

/-- What stands at a place. The top is a directory. -/
def node? (fs : FileSystem) : Place → Option Node
  | [] => some .dir
  | place => fs.nodes.lookup place

/-- Put something at a place where nothing is. -/
def add (fs : FileSystem) (place : Place) (node : Node) : FileSystem :=
  ⟨(place, node) :: fs.nodes, fs.files⟩

/-- How many links are followed on the way along one path. -/
def linkLimit : Nat := 40

/-- The place that a place stands for when links are followed, and how many more
    links may be followed behind it. -/
def settle (fs : FileSystem) : Nat → Place → Except OutputError (Place × Nat)
  | budget, place =>
    match fs.node? place with
    | some (.link target) =>
      match budget with
      | 0 => .error .linkLoop
      | rest + 1 => fs.settle rest target
    | _ => .ok (place, budget)

/-- The directory at the end of some names, which are followed from a directory, and
    how many more links may be followed behind it. -/
def walk (fs : FileSystem) (budget : Nat) (place : Place) :
    List String → Except OutputError (Place × Nat)
  | [] => .ok (place, budget)
  | name :: rest =>
    if name = "." then fs.walk budget place rest
    else if name = ".." then fs.walk budget place.tail rest
    else if Path.nameLimit < name.utf8ByteSize then .error .invalidFilename
    else
      match fs.settle budget (name :: place) with
      | .error reason => .error reason
      | .ok (found, left) =>
        match fs.node? found with
        | some .dir => fs.walk left found rest
        | none => .error .notFound
        | _ => .error .notADirectory

/-- The directory that a parsed path leads to. -/
def openDir (fs : FileSystem) (names : List String) : Except OutputError Place :=
  (fs.walk linkLimit [] names.reverse).map Prod.fst

/-- The place of a parsed path, in an existing directory, and how many more links may
    be followed from it. The last name itself is not followed, unless it is one or two
    dots. -/
def reach (fs : FileSystem) : List String → Except OutputError (Place × Nat)
  | [] => .ok ([], linkLimit)
  | name :: outer =>
    if name = "." ∨ name = ".." then fs.walk linkLimit [] (name :: outer).reverse
    else
      match fs.walk linkLimit [] outer.reverse with
      | .error reason => .error reason
      | .ok (place, left) =>
        if Path.nameLimit < name.utf8ByteSize then .error .invalidFilename
        else .ok (name :: place, left)

/-- The place of a parsed path. -/
def locate (fs : FileSystem) (names : List String) : Except OutputError Place :=
  (fs.reach names).map Prod.fst

/-- Whether a parsed path leads to a directory. -/
def isDir (fs : FileSystem) (names : List String) : Bool :=
  match fs.openDir names with
  | .ok _ => true
  | .error _ => false

/-- Make one directory. -/
def createDir (fs : FileSystem) (names : List String) : Except OutputError FileSystem :=
  match fs.locate names with
  | .error reason => .error reason
  | .ok place =>
    match fs.node? place with
    | some _ => .error .alreadyExists
    | none => .ok (fs.add place .dir)

/-- Make a directory, and the ones around it that are missing. It is fine if it is
    there already. A dot at the end of the path counts with the name before it, which
    is then not among the ones around. -/
def createDirAll : List String → Attempt OutputError FileSystem Unit
  | [] => pure ()
  | name :: outer => fun fs =>
    match fs.createDir (name :: outer) with
    | .ok made => (.ok (), made)
    | .error .notFound =>
      let around : Except OutputError Unit × FileSystem :=
        if name = "." then
          match outer with
          | [] => (.ok (), fs)
          | _ :: beyond => createDirAll beyond fs
        else createDirAll outer fs
      match around with
      | (.error reason, left) => (.error reason, left)
      | (.ok (), left) =>
        match left.createDir (name :: outer) with
        | .ok made => (.ok (), made)
        | .error reason =>
          if left.isDir (name :: outer) then (.ok (), left) else (.error reason, left)
    | .error reason => if fs.isDir (name :: outer) then (.ok (), fs) else (.error reason, fs)

/-- Whether a place lies inside a directory, at any depth. -/
def isBelow (dir place : Place) : Bool :=
  dir.isSuffixOf place && dir != place

/-- Remove everything inside a directory. Links are removed and not followed. -/
def clear (fs : FileSystem) (dir : Place) : FileSystem :=
  ⟨fs.nodes.filter fun (place, _) => !isBelow dir place, fs.files⟩

/-- Remove what stands at a place, with everything inside it. -/
def remove (fs : FileSystem) (place : Place) : FileSystem :=
  ⟨fs.nodes.filter fun (other, _) => !place.isSuffixOf other, fs.files⟩

/-- Replace the bytes of a file. -/
def setFile (fs : FileSystem) (number : Nat) (bytes : ByteArray) : FileSystem :=
  ⟨fs.nodes, fs.files.setIfInBounds number bytes⟩

/-- The bytes of a file. -/
def bytes (fs : FileSystem) (number : Nat) : ByteArray :=
  fs.files.getD number ByteArray.empty

/-- Make an empty file, or empty the one that is there; gives its number. -/
def createFile (fs : FileSystem) (names : List String) : Except OutputError (Nat × FileSystem) :=
  match fs.reach names with
  | .error reason => .error reason
  | .ok (named, left) =>
    match fs.settle left named with
    | .error reason => .error reason
    | .ok (place, _) =>
      match fs.node? place with
      | some (.file number) => .ok (number, fs.setFile number ByteArray.empty)
      | some _ => .error .isADirectory
      | none =>
        match fs.node? place.tail with
        | some .dir =>
          .ok (fs.files.size, ⟨(place, .file fs.files.size) :: fs.nodes,
            fs.files.push ByteArray.empty⟩)
        | some _ => .error .notADirectory
        | none => .error .notFound

/-- Bytes with other bytes written over them from an offset on. A gap before the
    offset is filled with zeros. -/
def overwrite (old : ByteArray) (offset : Nat) (data : ByteArray) : ByteArray :=
  if data.size = 0 then old
  else
    let gap := ByteArray.mk (Array.replicate (offset - old.size) 0)
    (old ++ gap).extract 0 offset ++ data ++ old.extract (offset + data.size) old.size

/-- Write into a file from an offset on. -/
def writeAt (fs : FileSystem) (number offset : Nat) (data : ByteArray) : FileSystem :=
  fs.setFile number (overwrite (fs.bytes number) offset data)

/-! ## Whole files, links and listings -/

/-- Give a file exactly these bytes. -/
def writeFile (path : String) (data : ByteArray) : Attempt OutputError FileSystem Unit := fun fs =>
  match (Path.parse path).bind fs.createFile with
  | .error reason => (.error reason, fs)
  | .ok (number, made) => (.ok (), made.writeAt number 0 data)

/-- Make a directory and the ones around it, given by a path. For the empty path there
    is nothing to make. -/
def createDirs (path : String) : Attempt OutputError FileSystem Unit := fun fs =>
  if path = "" then (.ok (), fs)
  else
    match Path.parse path with
    | .error reason => (.error reason, fs)
    | .ok names => createDirAll names fs

/-- Make a symbolic link to the place of another path. -/
def linkTo (path target : String) : Attempt OutputError FileSystem Unit := fun fs =>
  match (Path.parse path).bind fs.locate, Path.parse target with
  | .ok place, .ok names =>
    match fs.node? place with
    | some _ => (.error .alreadyExists, fs)
    | none => (.ok (), fs.add place (.link names))
  | .error reason, _ => (.error reason, fs)
  | _, .error reason => (.error reason, fs)

/-- Remove what a path leads to, with everything inside it. -/
def removeAll (path : String) : Attempt OutputError FileSystem Unit := fun fs =>
  match (Path.parse path).bind fs.locate with
  | .error reason => (.error reason, fs)
  | .ok place =>
    match fs.node? place with
    | some _ => (.ok (), fs.remove place)
    | none => (.error .notFound, fs)

/-- The names of what stands directly in a directory. -/
def entries (fs : FileSystem) (dir : Place) : List String :=
  fs.nodes.filterMap fun (place, _) =>
    match place with
    | [] => none
    | name :: outer => if outer = dir then some name else none

/-- Remove one entry of a directory by its path. A directory first loses what is
    inside it, and then itself, if its path still leads to it: the path may run
    through what was just removed. -/
def removeEntry (path : String) : Attempt OutputError FileSystem Unit := fun fs =>
  match (Path.parse path).bind fs.locate with
  | .error reason => (.error reason, fs)
  | .ok place =>
    match fs.node? place with
    | none => (.error .notFound, fs)
    | some .dir =>
      let cleared := fs.clear place
      match (Path.parse path).bind cleared.locate with
      | .ok left => (.ok (), cleared.remove left)
      | .error .notFound => (.ok (), cleared)
      | .error reason => (.error reason, cleared)
    | some _ => (.ok (), fs.remove place)

/-- Remove entries of a directory, one after the other. -/
def removeEntries (path : String) : List String → Attempt OutputError FileSystem Unit
  | [] => pure ()
  | name :: rest => do
    removeEntry (Path.join path name)
    removeEntries path rest

/-- Make the directory of a path if it is missing, and remove every entry it has.
    Each entry is removed by its own path, so that what went before can hide it. -/
def emptyDir (path : String) : Attempt OutputError FileSystem Unit := do
  createDirs path
  let fs ← get
  match (Path.parse path).bind fs.openDir with
  | .error reason => throw reason
  | .ok place => removeEntries path (fs.entries place)

/-- Everything inside a directory at any depth: the path from the directory to it,
    and what it is. Links are not followed. -/
def listing (fs : FileSystem) (dir : Place) : List (String × Node) :=
  (fs.nodes.filter fun (place, _) => isBelow dir place).map fun (place, node) =>
    ("/".intercalate (place.take (place.length - dir.length)).reverse, node)

/-- The listing of the directory that a path leads to. -/
def listing? (fs : FileSystem) (path : String) : Option (List (String × Node)) :=
  match (Path.parse path).bind fs.openDir with
  | .ok dir => some (fs.listing dir)
  | .error _ => none

end FileSystem

end JasminGen
