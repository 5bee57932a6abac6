/-
  JasminGen.Proofs.DirectorySink

  Compiling into a directory. A directory that was emptied and a memory are kept in step:
  each unit of the memory has a file with its text, and whatever waits in the buffer of a
  writer has reached the file between two requests. So a compilation ends as a run into
  memory does, and leaves one file for each of its units, and those of the support classes
  if it has succeeded; nothing else is left in the directory, and outside of it nothing is
  changed, except that the directories on the way to it are made. All files are reached by
  paths below the one of the directory, which therefore must not run through what is removed
  and must leave room for a name.

  Main definitions: `Directory.Holds`, `Directory.mirroring`. Main result:
  `directory_of_compile`.
-/

import JasminGen.Compile
import JasminGen.Proofs.Classes
import JasminGen.Proofs.FileSystem.Files
import JasminGen.Proofs.Mirroring

namespace JasminGen

open FileSystem (Target UnitFiles unitBytes bytes_of_unitBytes)

-- ============================================================================
-- Operations of the directory
-- ============================================================================

namespace Directory

variable {d : Directory} {name : String} {writer : Nat} {h h' : Handle} {fs : FileSystem}

theorem prepare_ok {path : String} {base : FileSystem}
    (hempty : FileSystem.emptyDir path fs = (.ok (), base)) :
    prepare path ⟨path, fs, #[]⟩ = (.ok (), ⟨path, base, #[]⟩) := by
  have huse : useFiles (FileSystem.emptyDir path) ⟨path, fs, #[]⟩ =
      (.ok (), ⟨path, base, #[]⟩) := by
    rw [useFiles, hempty]
  rw [prepare, Attempt.bind_ok huse]
  rfl

theorem prepare_error {path : String} {reason : OutputError} {fs' : FileSystem}
    (hempty : FileSystem.emptyDir path fs = (.error reason, fs')) :
    prepare path ⟨path, fs, #[]⟩ = (.error reason, ⟨path, fs', #[]⟩) := by
  have huse : useFiles (FileSystem.emptyDir path) ⟨path, fs, #[]⟩ =
      (.error reason, ⟨path, fs', #[]⟩) := by
    rw [useFiles, hempty]
  exact Attempt.bind_error huse

theorem createUnit_ok {file : Nat}
    (hcreate : (Path.parse (d.unitPath name)).bind d.fs.createFile = .ok (file, fs)) :
    createUnit name d =
      (.ok d.handles.size, ⟨d.path, fs, d.handles.push ⟨file, 0, ByteArray.empty⟩⟩) := by
  have hget : (get : Attempt OutputError Directory Directory) d = (.ok d, d) := rfl
  rw [createUnit, Attempt.bind_ok hget, hcreate]
  rfl

theorem onHandle_ok {change : Handle → FileSystem → Handle × FileSystem}
    (hwriter : d.handles[writer]? = some h) (hchange : change h d.fs = (h', fs)) :
    onHandle writer change d = (.ok (), ⟨d.path, fs, d.handles.setIfInBounds writer h'⟩) := by
  rw [onHandle]
  show (Except.ok (), _) = _
  dsimp only
  rw [hwriter]
  dsimp only
  rw [hchange]

theorem getElem?_setIfInBounds_of_some (hwriter : d.handles[writer]? = some h) (h' : Handle) :
    (d.handles.setIfInBounds writer h')[writer]? = some h' := by
  obtain ⟨hlt, -⟩ := Array.getElem?_eq_some_iff.mp hwriter
  rw [Array.getElem?_setIfInBounds, if_pos rfl, if_pos hlt]

end Directory

-- ============================================================================
-- Memory and directory in step
-- ============================================================================

namespace Directory

/-- The directory holds the units of a memory, each in its own file. -/
structure Holds (base : FileSystem) (path : String) (dir : Place) (memory : Memory)
    (d : Directory) : Prop where
  path_eq : d.path = path
  sorted : memory.unitNames.Pairwise (· < ·)
  files : ∃ files, UnitFiles base dir files d.fs ∧
    ∀ name, (memory.unit? name).map String.toUTF8 = unitBytes files d.fs name

/-- The directory holds the units of a memory, except that a handle writes the unit `name`,
    and `text` was written through it. -/
structure Writes (base : FileSystem) (path : String) (dir : Place) (memory : Memory)
    (name text : String) (d : Directory) (h : Handle) : Prop where
  path_eq : d.path = path
  sorted : memory.unitNames.Pairwise (· < ·)
  tracks : h.Tracks d.fs text.toUTF8
  files : ∃ files, UnitFiles base dir files d.fs ∧ files.lookup name = some h.file ∧
    ∀ other, other ≠ name →
      (memory.unit? other).map String.toUTF8 = unitBytes files d.fs other

section Steps

variable {base : FileSystem} {path : String} {dir : Place} {memory : Memory} {d : Directory}
  {name text : String} {h : Handle}

/-- If nothing waits, the unit is in its file. -/
theorem Writes.holds (hw : Writes base path dir memory name text d h)
    (hbuffer : h.buffer = ByteArray.empty) : Holds base path dir (memory.set name text) d := by
  obtain ⟨files, U, hlookup, hothers⟩ := hw.files
  refine ⟨hw.path_eq, Memory.pairwise_alterIn _ hw.sorted, files, U, ?_⟩
  intro other
  by_cases hsame : other = name
  · have htotal := hw.tracks.total
    rw [hbuffer, ByteArray.append_empty] at htotal
    rw [hsame, Memory.unit?_set, unitBytes, hlookup, Option.map_some, Option.map_some, htotal]
  · rw [Memory.unit?_set_of_ne memory hsame]
    exact hothers other hsame

/-- A change of the file through its handle leaves the other units alone. -/
theorem Writes.update (hw : Writes base path dir memory name text d h) {h' : Handle}
    {stored : ByteArray} {text' : String} (hfile : h'.file = h.file)
    (htracks : h'.Tracks (d.fs.setFile h.file stored) text'.toUTF8) (handles : Array Handle) :
    Writes base path dir memory name text' ⟨d.path, d.fs.setFile h.file stored, handles⟩ h' := by
  obtain ⟨files, U, hlookup, hothers⟩ := hw.files
  refine ⟨hw.path_eq, hw.sorted, htracks, files, U.setFile hlookup stored, ?_, ?_⟩
  · rw [hlookup, hfile]
  · intro other hne
    show _ = unitBytes files (d.fs.setFile h.file stored) other
    rw [U.unitBytes_setFile hlookup, if_neg hne]
    exact hothers other hne

/-- A unit is created in both. -/
theorem Holds.create (T : Target base path dir) (hd : Holds base path dir memory d)
    (hfits : Path.Fits path (name ++ ".j")) :
    ∃ file fs', createUnit name d = (.ok d.handles.size,
        ⟨d.path, fs', d.handles.push ⟨file, 0, ByteArray.empty⟩⟩) ∧
      Writes base path dir memory name "" ⟨d.path, fs', d.handles.push ⟨file, 0, ByteArray.empty⟩⟩
        ⟨file, 0, ByteArray.empty⟩ := by
  obtain ⟨files, U, hunits⟩ := hd.files
  obtain ⟨number, files', fs', hcreate, U', hlookup, hbytes⟩ := U.create T hfits
  rw [← hd.path_eq] at hcreate
  have hempty : fs'.bytes number = ByteArray.empty :=
    bytes_of_unitBytes hlookup ((hbytes name).trans (if_pos rfl))
  refine ⟨number, fs', createUnit_ok hcreate, hd.path_eq, hd.sorted, ?_, files', U', hlookup, ?_⟩
  · refine ⟨U'.number_lt hlookup, ?_, ?_⟩
    · show 0 = (fs'.bytes number).size
      rw [hempty]
      rfl
    · show fs'.bytes number ++ ByteArray.empty = _
      rw [hempty]
      rfl
  · intro other hne
    show _ = unitBytes files' fs' other
    rw [hbytes other, if_neg hne]
    exact hunits other

/-- A text is written into both. -/
theorem Writes.write (hw : Writes base path dir memory name text d h) {writer : Nat}
    (hwriter : d.handles[writer]? = some h) (more : String) :
    ∃ d' h', writeBytes writer more.toUTF8 d = (.ok (), d') ∧ d'.handles[writer]? = some h' ∧
      Writes base path dir memory name (text ++ more) d' h' := by
  obtain ⟨h', stored, hwritten, hfile, htracks⟩ := Handle.written_of_tracks hw.tracks more.toUTF8
  have htext : text.toUTF8 ++ more.toUTF8 = (text ++ more).toUTF8 :=
    String.toByteArray_append.symm
  rw [htext] at htracks
  exact ⟨_, h', onHandle_ok hwriter hwritten, getElem?_setIfInBounds_of_some hwriter h',
    hw.update hfile htracks _⟩

/-- After a flush nothing waits. -/
theorem Writes.flush (hw : Writes base path dir memory name text d h) {writer : Nat}
    (hwriter : d.handles[writer]? = some h) :
    ∃ d' h', Directory.flush writer d = (.ok (), d') ∧ d'.handles[writer]? = some h' ∧
      h'.buffer = ByteArray.empty ∧ Writes base path dir memory name text d' h' := by
  have htracks := Handle.tracks_setFile hw.tracks.opened text.toUTF8 ByteArray.empty
  rw [ByteArray.append_empty] at htracks
  have hfile : (⟨h.file, text.toUTF8.size, ByteArray.empty⟩ : Handle).file = h.file := rfl
  exact ⟨_, _, onHandle_ok hwriter (Handle.flushed_of_tracks hw.tracks),
    getElem?_setIfInBounds_of_some hwriter _, rfl, hw.update hfile htracks _⟩

end Steps

/-- A memory and the files of an empty directory are kept in step. -/
def mirroring {base : FileSystem} {path : String} {dir : Place} (T : Target base path dir) :
    Mirroring Memory String Directory Nat where
  Names name := Path.Fits path (name ++ ".j")
  Idle := Holds base path dir
  Writing m name d writer := ∃ memory text h, m = memory.set name text ∧
    d.handles[writer]? = some h ∧ Writes base path dir memory name text d h
  Settled m name d writer := ∃ memory text h, m = memory.set name text ∧
    d.handles[writer]? = some h ∧ h.buffer = ByteArray.empty ∧
      Writes base path dir memory name text d h
  idle := by
    rintro m name d writer ⟨memory, text, h, rfl, -, hbuffer, hw⟩
    exact hw.holds hbuffer
  writing := by
    rintro m name d writer ⟨memory, text, h, rfl, hwriter, -, hw⟩
    exact ⟨memory, text, h, rfl, hwriter, hw⟩
  create := by
    intro m d hd name hfits
    obtain ⟨file, fs', hcreate, hw⟩ := hd.create T hfits
    exact ⟨name, m.set name "", _, _, rfl, hcreate, m, "", _, rfl, by simp, rfl, hw⟩
  write := by
    rintro m name d writer ⟨memory, text, h, rfl, hwriter, hw⟩ more
    obtain ⟨d', h', hwrite, hwriter', hw'⟩ := hw.write hwriter more
    exact ⟨(memory.set name text).append name more, d', rfl, hwrite, memory, text ++ more, h',
      Memory.append_set memory name text more, hwriter', hw'⟩
  flush := by
    rintro m name d writer ⟨memory, text, h, rfl, hwriter, hw⟩
    obtain ⟨d', h', hflush, hwriter', hbuffer, hw'⟩ := hw.flush hwriter
    exact ⟨_, d', rfl, hflush, memory, text, h', rfl, hwriter', hbuffer, hw'⟩

-- ============================================================================
-- Support classes
-- ============================================================================

section Support

variable {base : FileSystem} {path : String} {dir : Place} {memory : Memory} {d : Directory}

/-- A file that is written whole is a unit of its text. -/
theorem Holds.writeFile (T : Target base path dir) (hd : Holds base path dir memory d)
    {name : String} (hfits : Path.Fits path (name ++ ".j")) (text : String) :
    ∃ fs', FileSystem.writeFile (Path.join path (name ++ ".j")) text.toUTF8 d.fs = (.ok (), fs') ∧
      Holds base path dir (memory.set name text) ⟨d.path, fs', d.handles⟩ := by
  obtain ⟨files, U, hunits⟩ := hd.files
  obtain ⟨number, files', made, hcreate, U', hlookup, hbytes⟩ := U.create T hfits
  have hempty : made.bytes number = ByteArray.empty :=
    bytes_of_unitBytes hlookup ((hbytes name).trans (if_pos rfl))
  have hwrite : made.writeAt number 0 text.toUTF8 = made.setFile number text.toUTF8 := by
    rw [made.writeAt_size (by rw [hempty]; rfl), hempty, ByteArray.empty_append]
  refine ⟨made.setFile number text.toUTF8, ?_, hd.path_eq, Memory.pairwise_alterIn _ hd.sorted,
    files', U'.setFile hlookup _, ?_⟩
  · rw [FileSystem.writeFile, hcreate]
    dsimp only
    rw [hwrite]
  · intro other
    show _ = unitBytes files' (made.setFile number text.toUTF8) other
    rw [U'.unitBytes_setFile hlookup]
    by_cases hsame : other = name
    · rw [if_pos hsame, hsame, Memory.unit?_set]
      rfl
    · rw [if_neg hsame, hbytes other, if_neg hsame, Memory.unit?_set_of_ne memory hsame]
      exact hunits other

/-- Support classes become units of the directory as they do in memory. -/
theorem Holds.installAll (T : Target base path dir) (classes : List SupportClass)
    (hfits : ∀ c ∈ classes, Path.Fits path c.fileName) (hd : Holds base path dir memory d) :
    ∃ d', Directory.installAll classes d = (.ok (), d') ∧
      Holds base path dir (classes.foldl (fun m c => m.set c.name c.source) memory) d' := by
  induction classes generalizing memory d with
  | nil => exact ⟨d, rfl, hd⟩
  | cons c rest ih =>
      rw [List.forall_mem_cons] at hfits
      obtain ⟨fs', hwrite, hd'⟩ := hd.writeFile T hfits.1 c.source
      obtain ⟨d', hrest, hlast⟩ := ih hfits.2 hd'
      refine ⟨d', ?_, hlast⟩
      have hget : (get : Attempt OutputError Directory Directory) d = (.ok d, d) := rfl
      have hfile : Path.join d.path c.fileName = Path.join path (c.name ++ ".j") := by
        rw [hd.path_eq]
        rfl
      have huse : useFiles (FileSystem.writeFile (Path.join d.path c.fileName) c.source.toUTF8) d =
          (.ok (), ⟨d.path, fs', d.handles⟩) := by
        rw [useFiles, hfile, hwrite]
      rw [Directory.installAll, Attempt.bind_ok hget, Attempt.bind_ok huse]
      exact hrest

end Support

/-- A directory that holds the units of a memory contains them as files. -/
theorem Holds.contents_perm {base : FileSystem} {path : String} {dir : Place} {memory : Memory}
    {d : Directory} (hd : Holds base path dir memory d) (T : Target base path dir) :
    (d.fs.contents dir).Perm
      (memory.units.map fun unit => (unit.1 ++ ".j", some unit.2.toUTF8)) := by
  obtain ⟨files, U, hunits⟩ := hd.files
  have hnodup : (memory.setAll []).unitNames.Nodup := Memory.nodup_unitNames_setAll hd.sorted
  exact U.contents_perm T hnodup hunits

end Directory

-- ============================================================================
-- Compilations
-- ============================================================================

/-- A name that makes a file name together with the ending of units. -/
structure Path.Stem (name : String) : Prop where
  noSlash : '/' ∉ name.toList
  noNul : ∀ c ∈ name.toList, c.toNat ≠ 0
  short : name.utf8ByteSize ≤ 253

instance (name : String) : Decidable (Path.Stem name) :=
  decidable_of_iff ('/' ∉ name.toList ∧ (name.toList.all fun c => c.toNat != 0) = true ∧
      name.utf8ByteSize ≤ 253)
    ⟨fun ⟨hslash, hnul, hshort⟩ => ⟨hslash, Path.all_ne_nul.mp hnul, hshort⟩,
      fun h => ⟨h.noSlash, Path.all_ne_nul.mpr h.noNul, h.short⟩⟩

theorem Path.Stem.legal {name : String} (h : Path.Stem name) : Path.Legal (name ++ ".j") := by
  have hlist : (name ++ ".j").toList = name.toList ++ ['.', 'j'] := String.toList_append
  have hlast : (name ++ ".j").toList.getLast? = some 'j' := by
    rw [hlist, List.getLast?_append]
    rfl
  have hne : ∀ other : String, other.toList.getLast? ≠ some 'j' → name ++ ".j" ≠ other := by
    rintro other hother rfl
    exact hother hlast
  refine ⟨⟨hne "" (by decide), ?_, ?_⟩, hne "." (by decide), hne ".." (by decide), ?_⟩
  · rw [hlist, List.mem_append, not_or]
    exact ⟨h.noSlash, by decide⟩
  · rw [hlist]
    intro c hc
    have hending : ∀ c ∈ ['.', 'j'], c.toNat ≠ 0 := by simp
    rcases List.mem_append.mp hc with hc | hc
    · exact h.noNul c hc
    · exact hending c hc
  · have hending : ".j".utf8ByteSize = 2 := rfl
    have hshort := h.short
    rw [String.utf8ByteSize_append, hending, Path.nameLimit]
    omega

theorem stem_of_reserved : ∀ name ∈ reservedClasses, Path.Stem name := by decide

section Compilations

variable {program : Program} {path : String} {options : Options} {fs base made : FileSystem}
  {dir : Place}

/-- The names of the classes that a compilation may write. -/
def Program.classNames (program : Program) : List String :=
  program.structs.map StructDef.name ++ reservedClasses

theorem Program.fits_classNames (hstems : ∀ s ∈ program.structs, Path.Stem s.name)
    (hjoined : ∀ name ∈ program.classNames,
      (Path.join path (name ++ ".j")).utf8ByteSize ≤ Path.pathLimit) :
    ∀ name ∈ program.classNames, Path.Fits path (name ++ ".j") := by
  intro name hname
  refine ⟨?_, hjoined name hname⟩
  rcases List.mem_append.mp hname with hstruct | hreserved
  · obtain ⟨s, hs, rfl⟩ := List.mem_map.mp hstruct
    exact (hstems s hs).legal
  · exact (stem_of_reserved name hreserved).legal

/-- The units that a compilation leaves. -/
def unitsAfter (run : Except Failure Unit × Session Memory String) : Memory :=
  match run.1 with
  | .ok () => run.2.output.sink.install
  | .error _ => run.2.output.sink

/-- Once the directory is empty, a compilation ends as a run into memory does, and the
    directory holds its units. -/
theorem compile_holds (T : Target base path dir)
    (hempty : FileSystem.emptyDir path fs = (.ok (), base))
    (hfits : ∀ name ∈ program.classNames, Path.Fits path (name ++ ".j")) :
    let run := generate (.ofProgram program options) program Memory.empty
    (compile program path options fs).1 = run.1 ∧
      ∃ d : Directory, d.fs = (compile program path options fs).2.1 ∧
        Directory.Holds base path dir (unitsAfter run) d := by
  intro run
  have hstart : Directory.Holds base path dir Memory.empty ⟨path, base, #[]⟩ :=
    ⟨rfl, .nil, [], UnitFiles.refl base dir, fun _ => rfl⟩
  have hopens : ∀ action ∈ program.actions (.ofProgram program options),
      action.Opens fun name => Path.Fits path (name ++ ".j") := by
    apply Program.opens_of_mem_actions
    · intro s hs
      exact hfits s.name (List.mem_append_left _ (List.mem_map_of_mem hs))
    · exact hfits entryClass (List.mem_append_right _ List.mem_cons_self)
  obtain ⟨hsame, hheld⟩ := (Directory.mirroring T).generate hopens hstart
  have hsupport : ∀ c ∈ supportClasses, Path.Fits path c.fileName := by
    intro c hc
    have hreserved : ∀ c ∈ supportClasses, c.name ∈ reservedClasses := by decide
    exact hfits c.name (List.mem_append_right _ (hreserved c hc))
  rw [compile, Directory.prepare_ok hempty]
  dsimp only
  rcases hrun : generate (.ofProgram program options) program
    (⟨path, base, #[]⟩ : Directory) with ⟨_ | _, session⟩
  · rw [hrun] at hsame hheld
    refine ⟨hsame, session.output.sink, rfl, ?_⟩
    rw [unitsAfter, ← hsame]
    exact hheld
  · rw [hrun] at hsame hheld
    obtain ⟨d, hinstall, hd⟩ := Directory.Holds.installAll T supportClasses hsupport hheld
    dsimp only at hinstall ⊢
    rw [hinstall]
    refine ⟨hsame, d, rfl, ?_⟩
    rw [unitsAfter, ← hsame]
    exact hd

/-- The files of the support classes are added to those of the units if the run has
    succeeded. -/
theorem perm_unitsAfter (program : Program) (setting : Setting) :
    let run := generate setting program Memory.empty
    ((unitsAfter run).units.map fun unit => (unit.1 ++ ".j", some unit.2.toUTF8)).Perm
      (run.2.output.sink.units.map (fun unit => (unit.1 ++ ".j", some unit.2.toUTF8)) ++
        if run.1 = .ok () then supportClasses.map fun c => (c.fileName, some c.source.toUTF8)
        else []) := by
  intro run
  cases hrun : run.1 with
  | error failure => simp [unitsAfter, hrun]
  | ok u =>
      have hperm := (perm_units_installed hrun).map fun unit : String × String =>
        (unit.1 ++ ".j", some unit.2.toUTF8)
      rw [List.map_append, Memory.supportTexts, List.map_map] at hperm
      rw [unitsAfter, hrun, if_pos rfl]
      exact hperm

/-- Over a well-formed file system, a program whose structs have names of files is compiled
    into the directory of a path, if it is there or can be made, the path does not run
    through what is in the directory, and no path of a file in it gets too long. The
    compilation ends as a run into memory does. Afterwards the directory contains exactly
    one file for each unit, with its text, and those of the support classes if the run has
    succeeded. Outside of it everything stands as it did when the missing directories on
    the way had been made, and all files hold what they held. -/
theorem directory_of_compile (hfs : fs.WellFormed)
    (hstems : ∀ s ∈ program.structs, Path.Stem s.name)
    (hmade : FileSystem.createDirs path fs = (.ok (), made))
    (hleads : (Path.parse path).bind (made.clear dir).openDir = .ok dir)
    (hjoined : ∀ name ∈ made.entries dir ++ program.classNames.map (· ++ ".j"),
      (Path.join path name).utf8ByteSize ≤ Path.pathLimit) :
    let run := generate (.ofProgram program options) program Memory.empty
    let after := (compile program path options fs).2.1
    (compile program path options fs).1 = run.1 ∧
      (after.contents dir).Perm
        (run.2.output.sink.units.map (fun unit => (unit.1 ++ ".j", some unit.2.toUTF8)) ++
          if run.1 = .ok () then supportClasses.map fun c => (c.fileName, some c.source.toUTF8)
          else []) ∧
      (∀ place, FileSystem.isBelow dir place = false → after.node? place = made.node? place) ∧
      (∀ number < fs.files.size, after.bytes number = fs.bytes number) ∧
      FileSystem.Grown fs made ∧ ((Path.parse path).bind fs.openDir = .ok dir → made = fs) ∧
      after.WellFormed := by
  intro run after
  have hgrown : FileSystem.Grown fs made := by
    have hall := FileSystem.createDirs_grown path hfs
    rwa [hmade] at hall
  have T := hgrown.wellFormed.target_clear hleads
  rw [List.forall_mem_append] at hjoined
  have hempty := FileSystem.emptyDir_eq hmade hgrown.wellFormed T hjoined.1
  have hfits := Program.fits_classNames hstems (List.forall_mem_map.mp hjoined.2)
  obtain ⟨hsame, d, hd, hholds⟩ := compile_holds T hempty hfits
  have hafter : after = d.fs := hd.symm
  obtain ⟨files, U, -⟩ := hholds.files
  refine ⟨hsame, ?_, ?_, ?_, hgrown, ?_, ?_⟩
  · rw [hafter]
    exact (hholds.contents_perm T).trans (perm_unitsAfter program _)
  · intro place hout
    rw [hafter, U.node?_outside hout, FileSystem.node?_clear, hout]
    rfl
  · intro number hnumber
    have hfiles : (made.clear dir).files = fs.files := hgrown.files
    rw [hafter, U.kept number (hfiles ▸ hnumber), FileSystem.bytes, FileSystem.bytes, hfiles]
  · intro hopen
    have hsame := FileSystem.createDirs_of_openDir hfs hopen
    rw [hmade] at hsame
    exact (Prod.mk.inj hsame).2
  · rw [hafter]
    exact U.wellFormed T

end Compilations

/-- A directory `out` with a stale unit, a directory with a file and a link to a directory
    outside, in which there is a file. -/
def usedFiles : FileSystem where
  nodes := [(["Main.j", "out"], .file 2), (["old.j", "sub", "out"], .file 1),
    (["sub", "out"], .dir), (["link", "out"], .link ["outside"]), (["out"], .dir),
    (["kept", "outside"], .file 0), (["outside"], .dir)]
  files := #["kept".toUTF8, "old".toUTF8, "stale".toUTF8]

theorem usedFiles_wellFormed : usedFiles.WellFormed := by decide +kernel

theorem usedFiles_openDir : (Path.parse "out").bind usedFiles.openDir = .ok ["out"] := by
  decide +kernel

theorem directory_of_linkedProgram :
    (compile linkedProgram "out" {} usedFiles).1 = .ok () ∧
      ((compile linkedProgram "out" {} usedFiles).2.1.contents ["out"]).Perm
        ((generate (.ofProgram linkedProgram {}) linkedProgram Memory.empty).2.output.sink.units.map
            (fun unit => (unit.1 ++ ".j", some unit.2.toUTF8)) ++
          supportClasses.map fun c => (c.fileName, some c.source.toUTF8)) ∧
      (compile linkedProgram "out" {} usedFiles).2.1.node? ["kept", "outside"] = some (.file 0) ∧
      (compile linkedProgram "out" {} usedFiles).2.1.bytes 0 = "kept".toUTF8 := by
  have hrun := generate_memory_ok Memory.empty linkedProgram_lowers
  have hstems : ∀ s ∈ linkedProgram.structs, Path.Stem s.name := by decide
  have hmade := FileSystem.createDirs_of_openDir usedFiles_wellFormed usedFiles_openDir
  have hleads : (Path.parse "out").bind (usedFiles.clear ["out"]).openDir = .ok ["out"] := by
    decide +kernel
  have hjoined : ∀ name ∈ usedFiles.entries ["out"] ++ linkedProgram.classNames.map (· ++ ".j"),
      (Path.join "out" name).utf8ByteSize ≤ Path.pathLimit := by decide +kernel
  obtain ⟨hsame, hcontents, houtside, hbytes, -⟩ :=
    @directory_of_compile linkedProgram "out" {} usedFiles usedFiles ["out"]
      usedFiles_wellFormed hstems hmade hleads hjoined
  have hkept : usedFiles.node? ["kept", "outside"] = some (.file 0) := rfl
  have hkeptBytes : usedFiles.bytes 0 = "kept".toUTF8 := rfl
  refine ⟨hsame.trans hrun, ?_, ?_, ?_⟩
  · rw [if_pos hrun] at hcontents
    exact hcontents
  · exact (houtside ["kept", "outside"] (by decide)).trans hkept
  · exact (hbytes 0 (by decide)).trans hkeptBytes

-- ============================================================================
-- Paths that nothing is compiled into
-- ============================================================================

/-- A program with nothing in it. -/
def bareProgram : Program := ⟨[], [], []⟩

theorem bareProgram_lowers :
    (bareProgram.lower (.ofProgram bareProgram {}) .initial).result = .ok () := by
  decide +kernel

/-- A run ends where the unit of the entry class cannot be created. -/
theorem generate_bareProgram_error {dir d : Directory} {reason : OutputError}
    (h : Directory.createUnit entryClass dir = (.error reason, d)) :
    (generate (.ofProgram bareProgram {}) bareProgram dir).1 =
      .error (.error (.output reason)) := by
  have hcreate : Output.createUnit entryClass ⟨none, dir⟩ =
      (.error (.output reason), ⟨none, d⟩) := by
    have hsink : Sink.createUnit entryClass dir = (.error reason, d) := h
    rw [Output.createUnit, Output.useSink_eq, hsink]
    rfl
  have hopen : Output.openUnit entryClass ⟨none, dir⟩ =
      (.error (.output reason), ⟨none, d⟩) := by
    have hget : (get : Attempt GenError (Output Directory Nat) _) ⟨none, dir⟩ =
        (.ok ⟨none, dir⟩, ⟨none, dir⟩) := rfl
    rw [Output.openUnit, Attempt.bind_ok hget]
    exact Attempt.bind_error hcreate
  have hacts : ∃ rest, bareProgram.actions (.ofProgram bareProgram {}) =
      .openUnit entryClass :: rest := ⟨_, rfl⟩
  obtain ⟨rest, hacts⟩ := hacts
  have hall : Output.actAll (bareProgram.actions (.ofProgram bareProgram {})) ⟨none, dir⟩ =
      (.error (.output reason), ⟨none, d⟩) := by
    rw [hacts]
    exact Attempt.bind_error hopen
  exact Session.run_output_error bareProgram.propagates_lower hall

/-- A path of slashes leads to the top directory. -/
def slashes (n : Nat) : String :=
  String.ofList (List.replicate n '/')

theorem toList_slashes (n : Nat) : (slashes n).toList = List.replicate n '/' :=
  String.toList_ofList

theorem utf8ByteSize_slashes (n : Nat) : (slashes n).utf8ByteSize = n := by
  induction n with
  | zero => rfl
  | succ n ih =>
      have hslash : (String.singleton '/').utf8ByteSize = 1 := rfl
      rw [slashes, List.replicate_succ, String.ofList_cons, String.utf8ByteSize_append, hslash]
      rw [slashes] at ih
      omega

theorem pieces_slashes (n : Nat) : Path.pieces (List.replicate n '/') = List.replicate (n + 1) [] := by
  induction n with
  | zero => rfl
  | succ n ih =>
      rw [List.replicate_succ, Path.pieces, if_pos rfl, ih]
      rfl

theorem slashes_ne_empty {n : Nat} (hpos : 0 < n) : slashes n ≠ "" := by
  intro h
  have hsize := congrArg String.utf8ByteSize h
  rw [utf8ByteSize_slashes] at hsize
  exact Nat.ne_of_gt hpos hsize

theorem parse_slashes {n : Nat} (hpos : 0 < n) (h : n ≤ Path.pathLimit) :
    Path.parse (slashes n) = .ok [] := by
  rw [Path.parse_eq_ok, utf8ByteSize_slashes, toList_slashes, pieces_slashes]
  refine ⟨?_, h, slashes_ne_empty hpos, ?_⟩
  · intro c hc
    rw [List.eq_of_mem_replicate hc]
    decide
  · have hnone : (List.replicate (n + 1) ([] : List Char)).filter (· != []) = [] := by simp
    rw [hnone]
    rfl

theorem parse_join_slashes {n : Nat} (h : Path.pathLimit < n + 6) (hpos : 0 < n) :
    Path.parse (Path.join (slashes n) "Main.j") = .error .invalidFilename := by
  have hlast : (slashes n).toList.getLast? = some '/' := by
    rw [toList_slashes, List.getLast?_replicate, if_neg (by omega)]
  have hjoin : Path.join (slashes n) "Main.j" = slashes n ++ "Main.j" := by
    rw [Path.join, if_neg (by decide), if_pos (.inr hlast)]
  have hnul : ((slashes n ++ "Main.j").toList.any fun c => c.toNat == 0) = false := by
    rw [String.toList_append, toList_slashes, List.any_append, List.any_replicate,
      if_neg (by omega)]
    rfl
  have hname : "Main.j".utf8ByteSize = 6 := rfl
  rw [hjoin, Path.parse, hnul, String.utf8ByteSize_append, utf8ByteSize_slashes, hname, if_pos h]
  rfl

/-- If the path takes up all the room, there is none for a file below it. -/
theorem compile_slashes {n : Nat} (hlong : Path.pathLimit < n + 6) (h : n ≤ Path.pathLimit) :
    (compile bareProgram (slashes n) {} .empty).1 =
      .error (.error (.output .invalidFilename)) := by
  have hpos : 0 < n := by
    unfold Path.pathLimit at hlong
    omega
  have hparse := parse_slashes hpos h
  have hempty : FileSystem.emptyDir (slashes n) .empty = (.ok (), .empty) := by
    have hmade : FileSystem.createDirs (slashes n) .empty = (.ok (), .empty) := by
      rw [FileSystem.createDirs, if_neg (slashes_ne_empty hpos), hparse]
      rfl
    have hget : (get : Attempt OutputError FileSystem FileSystem) .empty =
        (.ok .empty, .empty) := rfl
    rw [FileSystem.emptyDir, Attempt.bind_ok hmade, Attempt.bind_ok hget, hparse]
    rfl
  have hcreate : Directory.createUnit entryClass ⟨slashes n, .empty, #[]⟩ =
      (.error .invalidFilename, ⟨slashes n, .empty, #[]⟩) := by
    have hget : (get : Attempt OutputError Directory Directory) ⟨slashes n, .empty, #[]⟩ =
        (.ok ⟨slashes n, .empty, #[]⟩, ⟨slashes n, .empty, #[]⟩) := rfl
    have hparse' : Path.parse (Directory.unitPath ⟨slashes n, .empty, #[]⟩ entryClass) =
        .error .invalidFilename := parse_join_slashes hlong hpos
    rw [Directory.createUnit, Attempt.bind_ok hget, hparse']
    rfl
  have hrun := generate_bareProgram_error hcreate
  rw [compile, Directory.prepare_ok hempty]
  dsimp only
  rcases hgenerate : generate (.ofProgram bareProgram {}) bareProgram
    (⟨slashes n, .empty, #[]⟩ : Directory) with ⟨_ | _, session⟩
  · rw [hgenerate] at hrun
    exact hrun
  · rw [hgenerate] at hrun
    cases hrun

/-- Nothing is compiled into the empty path, whatever the program and the file system: no
    directory has to be made for it, but there is none to be read. -/
theorem compile_empty_path (program : Program) (options : Options) (fs : FileSystem) :
    compile program "" options fs = (.error (.error (.output .notFound)), fs, []) := by
  have hmade : FileSystem.createDirs "" fs = (.ok (), fs) := rfl
  have hget : (get : Attempt OutputError FileSystem FileSystem) fs = (.ok fs, fs) := rfl
  have hparse : Path.parse "" = .error .notFound := rfl
  have hempty : FileSystem.emptyDir "" fs = (.error .notFound, fs) := by
    rw [FileSystem.emptyDir, Attempt.bind_ok hmade, Attempt.bind_ok hget, hparse]
    rfl
  rw [compile, Directory.prepare_error hempty]

/-- A file system with one directory `a`. -/
def oneDirectory : FileSystem := ⟨[(["a"], .dir)], #[]⟩

/-- Nothing is compiled into an existing directory if the path to it runs through its own
    contents, which are removed, or if it is so long that a file below it has no path. Nothing
    is compiled into the empty path either, though making its directory succeeds. The run into
    memory succeeds all the same. -/
theorem paths_refused :
    (generate (.ofProgram bareProgram {}) bareProgram Memory.empty).1 = .ok () ∧
      (Path.parse "a/..").bind oneDirectory.openDir = .ok [] ∧
      (compile bareProgram "a/.." {} oneDirectory).1 = .error (.error (.output .notFound)) ∧
      (Path.parse (slashes 4090)).bind FileSystem.empty.openDir = .ok [] ∧
      (compile bareProgram (slashes 4090) {} .empty).1 =
        .error (.error (.output .invalidFilename)) ∧
      FileSystem.createDirs "" .empty = (.ok (), .empty) ∧
      (compile bareProgram "" {} .empty).1 = .error (.error (.output .notFound)) := by
  have hparse : Path.parse (slashes 4090) = .ok [] := parse_slashes (by decide) (by decide)
  refine ⟨generate_memory_ok Memory.empty bareProgram_lowers, ?_, ?_, ?_, ?_, rfl, ?_⟩
  · decide +kernel
  · decide +kernel
  · rw [hparse]
    rfl
  · exact compile_slashes (by decide) (by decide)
  · rw [compile_empty_path]

end JasminGen
