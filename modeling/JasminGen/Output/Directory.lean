/-
  JasminGen.Output.Directory

  A sink that writes each unit to a file of a directory. Writing is buffered: bytes
  reach the file when the buffer is full, when it is flushed and when its writer is
  closed.

  Main definitions: `Directory`, `Directory.prepare`, `Directory.unitPath`,
  `Directory.writeBytes`, `Directory.close`.
-/

import JasminGen.Code.Support
import JasminGen.FileSystem.Basic
import JasminGen.Output.Sink

namespace JasminGen

/-- An open file: where the next bytes go, and the bytes that wait for it. -/
structure Handle where
  file : Nat
  offset : Nat
  buffer : ByteArray

namespace Handle

/-- How many bytes a buffer holds. -/
def bufferSize : Nat := 8192

/-- Write the bytes that wait in a buffer. -/
def flushed (handle : Handle) (fs : FileSystem) : Handle × FileSystem :=
  (⟨handle.file, handle.offset + handle.buffer.size, ByteArray.empty⟩,
    fs.writeAt handle.file handle.offset handle.buffer)

/-- Write bytes through the buffer. If they do not fit, the buffer is written first;
    bytes that would fill the whole buffer go straight to the file. -/
def written (handle : Handle) (data : ByteArray) (fs : FileSystem) :
    Handle × FileSystem :=
  let (handle, fs) :=
    if handle.buffer.size + data.size ≤ bufferSize then (handle, fs) else handle.flushed fs
  if bufferSize ≤ data.size then
    (⟨handle.file, handle.offset + data.size, handle.buffer⟩,
      fs.writeAt handle.file handle.offset data)
  else (⟨handle.file, handle.offset, handle.buffer ++ data⟩, fs)

end Handle

/-- A directory of a file system, and the files that have been opened in it. -/
structure Directory where
  path : String
  fs : FileSystem
  handles : Array Handle

namespace Directory

/-- The file of a unit. -/
def unitPath (dir : Directory) (name : String) : String :=
  Path.join dir.path (name ++ ".j")

/-- Work on the file system. -/
def useFiles {α : Type} (use : Attempt OutputError FileSystem α) :
    Attempt OutputError Directory α := fun dir =>
  let (result, fs) := use dir.fs
  (result, ⟨dir.path, fs, dir.handles⟩)

/-- Go over to the directory of a path, which is made if it is missing and emptied
    otherwise. -/
def prepare (path : String) : Attempt OutputError Directory Unit := do
  useFiles (FileSystem.emptyDir path)
  modify fun dir => ⟨path, dir.fs, dir.handles⟩

/-- Change an open file. -/
def onHandle (writer : Nat) (change : Handle → FileSystem → Handle × FileSystem) :
    Attempt OutputError Directory Unit :=
  modify fun dir =>
    match dir.handles[writer]? with
    | none => dir
    | some handle =>
      let (handle', fs) := change handle dir.fs
      ⟨dir.path, fs, dir.handles.setIfInBounds writer handle'⟩

/-- Write bytes through a writer. -/
def writeBytes (writer : Nat) (data : ByteArray) : Attempt OutputError Directory Unit :=
  onHandle writer fun handle fs => handle.written data fs

/-- Write what waits in a writer's buffer. -/
def flush (writer : Nat) : Attempt OutputError Directory Unit :=
  onHandle writer fun handle fs => handle.flushed fs

/-- Done with a writer; what waits in its buffer is written. -/
def close (writer : Nat) : Attempt OutputError Directory Unit :=
  flush writer

/-- Create the file of a unit and open it. -/
def createUnit (name : String) : Attempt OutputError Directory Nat := do
  let dir ← get
  match (Path.parse (dir.unitPath name)).bind dir.fs.createFile with
  | .error reason => throw reason
  | .ok (file, fs) =>
    set (⟨dir.path, fs, dir.handles.push ⟨file, 0, ByteArray.empty⟩⟩ : Directory)
    pure dir.handles.size

/-- Write the files of support classes. -/
def installAll : List SupportClass → Attempt OutputError Directory Unit
  | [] => pure ()
  | c :: rest => do
    let dir ← get
    useFiles (FileSystem.writeFile (Path.join dir.path c.fileName) c.source.toUTF8)
    installAll rest

instance : Sink Directory Nat where
  createUnit := createUnit
  write writer text := writeBytes writer text.toUTF8
  flush := flush
  installSupport := installAll supportClasses
  interruptions _ := 0
  interruptions_lt h := by cases h

end Directory

end JasminGen
