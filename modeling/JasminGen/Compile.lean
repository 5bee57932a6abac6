/-
  JasminGen.Compile

  Compiling a program into a directory of a file system: all its units, and the
  support classes they need.

  Main function: `compile`.
-/

import JasminGen.Output.Directory
import JasminGen.Session

namespace JasminGen

/-- The setting of a run on a program by itself: its own symbol table, which also
    answers types. -/
def Setting.ofProgram (program : Program) (options : Options) : Setting :=
  let symbols := SymbolTable.ofProgram program
  ⟨symbols, symbols.typeOf, options⟩

/-- The line that reports that a compilation is done. -/
def installedReport (options : Options) (path : String) : String :=
  Text.paint options.colored .boldGreen "Installed" ++ " runtime classes into " ++
    Text.paint options.colored .blue path

/-- Empty the directory of a path, or make it, and write the units of a program and
    the support classes into it. Also gives the lines that were reported. -/
def compile (program : Program) (path : String) (options : Options) (fs : FileSystem) :
    Except Failure Unit × FileSystem × List String :=
  match Directory.prepare path ⟨path, fs, #[]⟩ with
  | (.error reason, dir) => (.error (.error (.output reason)), dir.fs, [])
  | (.ok (), dir) =>
    match generate (Setting.ofProgram program options) program dir with
    | (.error failure, session) => (.error failure, session.output.sink.fs, session.reports)
    | (.ok (), session) =>
      match Directory.installAll supportClasses session.output.sink with
      | (.error reason, dir') =>
        (.error (.error (.output reason)), dir'.fs, session.reports)
      | (.ok (), dir') =>
        let reports := if options.verbose then [installedReport options path] else []
        (.ok (), dir'.fs, session.reports ++ reports)

end JasminGen
