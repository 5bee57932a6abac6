/-
  JasminGen.Proofs.FileSystem.Files

  The files of units. What was written through a buffered handle is what its file holds,
  followed by what waits in the buffer, and no other file changes. A file system in which
  units were created, in a directory that was empty, is known by their names and the
  numbers of their files: creating a unit gives it an empty file, whether it had one or not,
  and everything that was there before stays.

  Main definitions: `Handle.Tracks`, `FileSystem.UnitFiles`, `FileSystem.contents`. Main
  results: `Handle.written_of_tracks`, `FileSystem.UnitFiles.create`,
  `FileSystem.UnitFiles.contents_perm`.
-/

import Mathlib.Data.List.Nodup
import JasminGen.Output.Directory
import JasminGen.Proofs.FileSystem.Emptying

namespace JasminGen

-- ============================================================================
-- Bytes of files
-- ============================================================================

namespace FileSystem

variable (fs : FileSystem) {number : Nat}

@[simp] theorem size_setFile (number : Nat) (data : ByteArray) :
    (fs.setFile number data).files.size = fs.files.size :=
  Array.size_setIfInBounds

theorem bytes_setFile (h : number < fs.files.size) (data : ByteArray) (other : Nat) :
    (fs.setFile number data).bytes other = if other = number then data else fs.bytes other := by
  rw [bytes, bytes, setFile, Array.getD_eq_getD_getElem?, Array.getD_eq_getD_getElem?,
    Array.getElem?_setIfInBounds]
  by_cases heq : other = number
  · rw [if_pos heq.symm, if_pos h, if_pos heq]
    rfl
  · rw [if_neg (Ne.symm heq), if_neg heq]

@[simp] theorem setFile_setFile (number : Nat) (data data' : ByteArray) :
    (fs.setFile number data).setFile number data' = fs.setFile number data' := by
  simp [setFile]

theorem setFile_bytes (h : number < fs.files.size) : fs.setFile number (fs.bytes number) = fs := by
  have hfiles : fs.files.setIfInBounds number (fs.bytes number) = fs.files := by
    rw [bytes, Array.getD_eq_getD_getElem?, Array.getElem?_eq_getElem h, Option.getD_some]
    simp [Array.setIfInBounds, h]
  rw [setFile, hfiles]

/-- Writing where a file ends adds to it. -/
theorem overwrite_size (old data : ByteArray) : overwrite old old.size data = old ++ data := by
  unfold overwrite
  split
  · next hempty => rw [ByteArray.size_eq_zero_iff.mp hempty, ByteArray.append_empty]
  · have hgap : ByteArray.mk (Array.replicate (old.size - old.size) 0) = ByteArray.empty := by
      rw [Nat.sub_self]
      rfl
    have hrest : old.extract (old.size + data.size) old.size = ByteArray.empty :=
      ByteArray.extract_eq_empty_iff.mpr (by omega)
    dsimp only
    rw [hgap, hrest, ByteArray.append_empty, ByteArray.append_empty, ByteArray.extract_zero_size]

theorem writeAt_size {offset : Nat} (h : offset = (fs.bytes number).size) (data : ByteArray) :
    fs.writeAt number offset data = fs.setFile number (fs.bytes number ++ data) := by
  rw [writeAt, h, overwrite_size]

end FileSystem

-- ============================================================================
-- Buffered handles
-- ============================================================================

namespace Handle

/-- What was written through the handle is in its file, or waits in its buffer. -/
structure Tracks (h : Handle) (fs : FileSystem) (total : ByteArray) : Prop where
  opened : h.file < fs.files.size
  offset : h.offset = (fs.bytes h.file).size
  total : fs.bytes h.file ++ h.buffer = total

variable {h : Handle} {fs : FileSystem} {total : ByteArray}

theorem tracks_setFile {number : Nat} (hnumber : number < fs.files.size)
    (stored buffer : ByteArray) :
    Tracks ⟨number, stored.size, buffer⟩ (fs.setFile number stored) (stored ++ buffer) := by
  have hbytes : (fs.setFile number stored).bytes number = stored := by
    rw [fs.bytes_setFile hnumber, if_pos rfl]
  refine ⟨?_, ?_, ?_⟩
  · rw [FileSystem.size_setFile]
    exact hnumber
  · rw [hbytes]
  · rw [hbytes]

/-- Flushing brings everything into the file. -/
theorem flushed_of_tracks (ht : h.Tracks fs total) :
    h.flushed fs = (⟨h.file, total.size, ByteArray.empty⟩, fs.setFile h.file total) := by
  have hsize : h.offset + h.buffer.size = total.size := by
    rw [← ht.total, ByteArray.size_append, ht.offset]
  rw [flushed, hsize, fs.writeAt_size ht.offset, ht.total]

/-- Bytes go into the buffer, or to the file if there are too many of them; nothing may wait
    in the buffer then. -/
theorem stored_of_tracks (ht : h.Tracks fs total) (data : ByteArray)
    (hempty : bufferSize ≤ data.size → h.buffer = ByteArray.empty) :
    ∃ h' stored, (if bufferSize ≤ data.size then
        ((⟨h.file, h.offset + data.size, h.buffer⟩ : Handle), fs.writeAt h.file h.offset data)
      else (⟨h.file, h.offset, h.buffer ++ data⟩, fs)) = (h', fs.setFile h.file stored) ∧
      h'.file = h.file ∧ h'.Tracks (fs.setFile h.file stored) (total ++ data) := by
  by_cases hlarge : bufferSize ≤ data.size
  · have hstored : fs.bytes h.file = total := by
      rw [← ht.total, hempty hlarge, ByteArray.append_empty]
    have hsize : h.offset + data.size = (total ++ data).size := by
      rw [ByteArray.size_append, ← hstored, ht.offset]
    refine ⟨⟨h.file, (total ++ data).size, ByteArray.empty⟩, total ++ data, ?_, rfl, ?_⟩
    · rw [if_pos hlarge, hsize, hempty hlarge, fs.writeAt_size ht.offset, hstored]
    · have htracks := tracks_setFile ht.opened (total ++ data) ByteArray.empty
      rwa [ByteArray.append_empty] at htracks
  · refine ⟨⟨h.file, h.offset, h.buffer ++ data⟩, fs.bytes h.file, ?_, rfl, ?_⟩
    · rw [if_neg hlarge, fs.setFile_bytes ht.opened]
    · rw [fs.setFile_bytes ht.opened, ← ht.total, ByteArray.append_assoc]
      exact ⟨ht.opened, ht.offset, rfl⟩

/-- Writing adds to what was written, and changes no other file. -/
theorem written_of_tracks (ht : h.Tracks fs total) (data : ByteArray) :
    ∃ h' stored, h.written data fs = (h', fs.setFile h.file stored) ∧
      h'.file = h.file ∧ h'.Tracks (fs.setFile h.file stored) (total ++ data) := by
  unfold written
  by_cases hfits : h.buffer.size + data.size ≤ bufferSize
  · rw [if_pos hfits]
    apply stored_of_tracks ht data
    intro hlarge
    exact ByteArray.size_eq_zero_iff.mp (by omega)
  · rw [if_neg hfits, flushed_of_tracks ht]
    have hflushed := tracks_setFile ht.opened total ByteArray.empty
    rw [ByteArray.append_empty] at hflushed
    obtain ⟨h', stored, hwritten, hfile, htracks⟩ :=
      stored_of_tracks hflushed data fun _ => rfl
    dsimp only at hwritten hfile htracks
    rw [FileSystem.setFile_setFile] at hwritten htracks
    exact ⟨h', stored, hwritten, hfile, htracks⟩

end Handle

-- ============================================================================
-- Files of units
-- ============================================================================

namespace FileSystem

/-- The place of a unit's file in a directory. -/
def unitPlace (dir : Place) (name : String) : Place :=
  (name ++ ".j") :: dir

/-- Nothing was added to `base` but the files of units, known by their names and numbers,
    in the directory `dir`; the files that were there before hold what they held. -/
structure UnitFiles (base : FileSystem) (dir : Place) (files : List (String × Nat))
    (fs : FileSystem) : Prop where
  nodes : fs.nodes = files.map (fun file => (unitPlace dir file.1, .file file.2)) ++ base.nodes
  legal : ∀ file ∈ files, Path.Legal (file.1 ++ ".j")
  names : (files.map Prod.fst).Nodup
  numbers : (files.map Prod.snd).Nodup
  fresh : ∀ file ∈ files, base.files.size ≤ file.2 ∧ file.2 < fs.files.size
  size_le : base.files.size ≤ fs.files.size
  kept : ∀ number < base.files.size, fs.bytes number = base.bytes number

/-- What the file of a unit holds. -/
def unitBytes (files : List (String × Nat)) (fs : FileSystem) (name : String) :
    Option ByteArray :=
  (files.lookup name).map fs.bytes

theorem bytes_of_unitBytes {files : List (String × Nat)} {fs : FileSystem} {name : String}
    {number : Nat} {data : ByteArray} (hlookup : files.lookup name = some number)
    (h : unitBytes files fs name = some data) : fs.bytes number = data := by
  rw [unitBytes, hlookup] at h
  exact Option.some.inj h

theorem unitPlace_injective {dir : Place} {name other : String}
    (h : unitPlace dir name = unitPlace dir other) : name = other :=
  (String.append_left_inj ".j").mp (List.cons.inj h).1

theorem isBelow_unitPlace (dir : Place) (name : String) : isBelow dir (unitPlace dir name) = true :=
  isBelow_of_suffix (List.suffix_refl _)

theorem lookup_unitPlace (dir : Place) (files : List (String × Nat)) (name : String) :
    (files.map fun file => (unitPlace dir file.1, Node.file file.2)).lookup (unitPlace dir name) =
      (files.lookup name).map .file := by
  induction files with
  | nil => rfl
  | cons file rest ih =>
      rw [List.map_cons, List.lookup_cons, List.lookup_cons]
      by_cases hsame : name = file.1
      · rw [beq_iff_eq.mpr hsame, beq_iff_eq.mpr (congrArg (unitPlace dir) hsame)]
        rfl
      · have hother : unitPlace dir name ≠ unitPlace dir file.1 :=
          fun heq => hsame (unitPlace_injective heq)
        rw [beq_eq_false_iff_ne.mpr hsame, beq_eq_false_iff_ne.mpr hother]
        exact ih

theorem lookup_unitPlace_of_outside {dir place : Place} (h : isBelow dir place = false)
    (files : List (String × Nat)) :
    (files.map fun file => (unitPlace dir file.1, Node.file file.2)).lookup place = none := by
  rw [List.lookup_eq_none_iff]
  intro entry hentry
  obtain ⟨file, -, rfl⟩ := List.mem_map.mp hentry
  rw [bne_iff_ne]
  rintro rfl
  rw [isBelow_unitPlace] at h
  cases h

theorem bytes_push (fs : FileSystem) (nodes : List (Place × Node)) (data : ByteArray)
    (number : Nat) :
    FileSystem.bytes ⟨nodes, fs.files.push data⟩ number =
      if number = fs.files.size then data else fs.bytes number := by
  rw [bytes, bytes, Array.getD_eq_getD_getElem?, Array.getD_eq_getD_getElem?, Array.getElem?_push]
  by_cases heq : number = fs.files.size
  · rw [if_pos heq, if_pos heq]
    rfl
  · rw [if_neg heq, if_neg heq]

namespace UnitFiles

variable {base fs : FileSystem} {path name : String} {dir : Place} {files : List (String × Nat)}
  {number : Nat}

theorem refl (base : FileSystem) (dir : Place) : UnitFiles base dir [] base :=
  ⟨rfl, by simp, .nil, .nil, by simp, Nat.le_refl _, fun _ _ => rfl⟩

variable (U : UnitFiles base dir files fs)
include U

/-- Outside of the directory everything is as it was. -/
theorem node?_outside {place : Place} (h : isBelow dir place = false) :
    fs.node? place = base.node? place := by
  cases place with
  | nil => rfl
  | cons first outer =>
      rw [node?_cons, node?_cons, U.nodes, List.lookup_append, lookup_unitPlace_of_outside h]
      rfl

/-- Inside of it there are the files of the units. -/
theorem node?_unitPlace (T : Target base path dir) (name : String) :
    fs.node? (unitPlace dir name) = (files.lookup name).map .file := by
  have hbase : base.nodes.lookup (unitPlace dir name) = none := by
    cases hnode : base.nodes.lookup (unitPlace dir name) with
    | none => rfl
    | some node =>
        have hbare := T.bare (unitPlace dir name) node hnode
        rw [isBelow_unitPlace] at hbare
        cases hbare
  show fs.nodes.lookup (unitPlace dir name) = _
  rw [U.nodes, List.lookup_append, lookup_unitPlace, hbase, Option.or_none]

theorem within (T : Target base path dir) : base.Within fs := by
  intro place node hnode
  rw [U.node?_outside (T.bare place node hnode)]
  exact hnode

theorem number_lt (h : files.lookup name = some number) : number < fs.files.size :=
  (U.fresh _ (mem_of_lookup h)).2

/-- Two units never share a file. -/
theorem number_ne {other : String} {number' : Nat} (h : files.lookup name = some number)
    (h' : files.lookup other = some number') (hne : other ≠ name) : number' ≠ number := by
  rintro rfl
  have hentry := List.inj_on_of_nodup_map U.numbers (mem_of_lookup h') (mem_of_lookup h) rfl
  exact hne (Prod.mk.inj hentry).1

-- ----------------------------------------------------------------------------
-- Writing
-- ----------------------------------------------------------------------------

theorem setFile (h : files.lookup name = some number) (data : ByteArray) :
    UnitFiles base dir files (fs.setFile number data) := by
  obtain ⟨hfresh, hlt⟩ := U.fresh _ (mem_of_lookup h)
  refine ⟨U.nodes, U.legal, U.names, U.numbers, ?_, ?_, ?_⟩
  · rw [size_setFile]
    exact U.fresh
  · rw [size_setFile]
    exact U.size_le
  · intro old hold
    have hne : old ≠ number := by
      dsimp only at hfresh
      omega
    rw [bytes_setFile fs hlt, if_neg hne]
    exact U.kept old hold

/-- Writing a unit's file changes what this unit holds. -/
theorem unitBytes_setFile (h : files.lookup name = some number) (data : ByteArray)
    (other : String) :
    unitBytes files (fs.setFile number data) other =
      if other = name then some data else unitBytes files fs other := by
  rw [unitBytes, unitBytes]
  by_cases hsame : other = name
  · rw [if_pos hsame, hsame, h, Option.map_some, bytes_setFile fs (U.number_lt h), if_pos rfl]
  · rw [if_neg hsame]
    cases hother : files.lookup other with
    | none => rfl
    | some number' =>
        rw [Option.map_some, Option.map_some, bytes_setFile fs (U.number_lt h),
          if_neg (U.number_ne h hother hsame)]

-- ----------------------------------------------------------------------------
-- Creating
-- ----------------------------------------------------------------------------

/-- A unit that is not there gets a new file. -/
theorem push (hlegal : Path.Legal (name ++ ".j")) (h : files.lookup name = none) :
    UnitFiles base dir ((name, fs.files.size) :: files)
      ⟨(unitPlace dir name, .file fs.files.size) :: fs.nodes, fs.files.push ByteArray.empty⟩ := by
  have hname : name ∉ files.map Prod.fst := by
    intro hmem
    obtain ⟨⟨_, number⟩, hfile, rfl⟩ := List.mem_map.mp hmem
    rw [lookup_of_mem U.names hfile] at h
    cases h
  have hnumber : fs.files.size ∉ files.map Prod.snd := by
    intro hmem
    obtain ⟨file, hfile, hsize⟩ := List.mem_map.mp hmem
    have hlt := (U.fresh file hfile).2
    omega
  refine ⟨?_, ?_, ?_, ?_, ?_, ?_, ?_⟩
  · rw [U.nodes]
    rfl
  · exact List.forall_mem_cons.mpr ⟨hlegal, U.legal⟩
  · exact List.nodup_cons.mpr ⟨hname, U.names⟩
  · exact List.nodup_cons.mpr ⟨hnumber, U.numbers⟩
  · rw [Array.size_push]
    refine List.forall_mem_cons.mpr ⟨⟨U.size_le, Nat.lt_succ_self _⟩, ?_⟩
    intro file hfile
    obtain ⟨hfresh, hlt⟩ := U.fresh file hfile
    exact ⟨hfresh, Nat.lt_succ_of_lt hlt⟩
  · rw [Array.size_push]
    exact Nat.le_succ_of_le U.size_le
  · intro old hold
    have hsize := U.size_le
    have hne : old ≠ fs.files.size := by omega
    rw [bytes_push, if_neg hne]
    exact U.kept old hold

theorem unitBytes_push (nodes : List (Place × Node)) (other : String) :
    unitBytes ((name, fs.files.size) :: files) ⟨nodes, fs.files.push ByteArray.empty⟩ other =
      if other = name then some ByteArray.empty else unitBytes files fs other := by
  rw [unitBytes, unitBytes, List.lookup_cons]
  by_cases hsame : other = name
  · rw [if_pos hsame, beq_iff_eq.mpr hsame]
    dsimp only
    rw [Option.map_some, bytes_push, if_pos rfl]
  · rw [if_neg hsame, beq_eq_false_iff_ne.mpr hsame]
    cases hother : files.lookup other with
    | none => rfl
    | some number =>
        have hlt := U.number_lt hother
        dsimp only
        rw [Option.map_some, Option.map_some, bytes_push, if_neg (by omega)]

/-- Creating a unit gives it an empty file. -/
theorem create (T : Target base path dir) (hfits : Path.Fits path (name ++ ".j")) :
    ∃ number files' fs', (Path.parse (Path.join path (name ++ ".j"))).bind fs.createFile =
        .ok (number, fs') ∧
      UnitFiles base dir files' fs' ∧ files'.lookup name = some number ∧
      ∀ other, unitBytes files' fs' other =
        if other = name then some ByteArray.empty else unitBytes files fs other := by
  obtain ⟨names, left, hparse, hwalk⟩ := T.walk
  have hreach : fs.reach ((name ++ ".j") :: Path.withoutDot names) =
      .ok (unitPlace dir name, left) :=
    reach_entry hfits.toLegal (hwalk fs (U.within T))
  have hnode := U.node?_unitPlace T name
  have hsettle : fs.settle left (unitPlace dir name) = .ok (unitPlace dir name, left) := by
    apply settle_eq_self
    intro target hlink
    rw [hnode] at hlink
    cases hfile : files.lookup name with
    | none => simp [hfile] at hlink
    | some number => simp [hfile] at hlink
  rw [Path.parse_join hparse hfits]
  show ∃ number files' fs', fs.createFile ((name ++ ".j") :: Path.withoutDot names) = _ ∧ _
  rw [createFile, hreach]
  dsimp only
  rw [hsettle]
  dsimp only
  rw [hnode]
  cases hfile : files.lookup name with
  | some number =>
      exact ⟨number, files, fs.setFile number ByteArray.empty, rfl, U.setFile hfile _, hfile,
        U.unitBytes_setFile hfile _⟩
  | none =>
      have hdir : fs.node? dir = some .dir :=
        U.within T dir _ (T.wellFormed.walk_isDir rfl (hwalk base (within_refl base)))
      refine ⟨fs.files.size, (name, fs.files.size) :: files, _, ?_, U.push hfits.toLegal hfile, ?_,
        U.unitBytes_push _⟩
      · simp only [Option.map_none, unitPlace, List.tail_cons, hdir]
      · simp

end UnitFiles

end FileSystem

-- ============================================================================
-- Contents of directories
-- ============================================================================

namespace FileSystem

/-- The bytes of what stands at a place, if it is a file. -/
def nodeBytes (fs : FileSystem) : Node → Option ByteArray
  | .file number => some (fs.bytes number)
  | .dir | .link _ => none

/-- Everything inside a directory at any depth: the path from the directory to it, and the
    bytes if it is a file. -/
def contents (fs : FileSystem) (dir : Place) : List (String × Option ByteArray) :=
  (fs.listing dir).map fun (name, node) => (name, fs.nodeBytes node)

theorem listing_eq (fs : FileSystem) (dir : Place) :
    fs.listing dir = (fs.nodes.filter fun entry => isBelow dir entry.1).map fun entry =>
      ("/".intercalate (entry.1.take (entry.1.length - dir.length)).reverse, entry.2) := rfl

/-- The members of a list by distinct keys are found by their keys. -/
theorem mem_map_values {α β γ : Type} [BEq α] [LawfulBEq α] {entries : List (α × β)}
    (hdistinct : (entries.map Prod.fst).Nodup) (f : β → γ) (key : α) (value : γ) :
    (key, value) ∈ entries.map (fun entry => (entry.1, f entry.2)) ↔
      (entries.lookup key).map f = some value := by
  rw [List.mem_map, Option.map_eq_some_iff]
  refine ⟨?_, ?_⟩
  · rintro ⟨⟨_, found⟩, hentry, heq⟩
    obtain ⟨rfl, rfl⟩ := Prod.mk.inj heq
    exact ⟨found, lookup_of_mem hdistinct hentry, rfl⟩
  · rintro ⟨found, hfound, rfl⟩
    exact ⟨(key, found), mem_of_lookup hfound, rfl⟩

theorem nodup_map_values {α β γ : Type} {entries : List (α × β)}
    (hdistinct : (entries.map Prod.fst).Nodup) (f : β → γ) :
    (entries.map fun entry => (entry.1, f entry.2)).Nodup := by
  apply List.Nodup.of_map Prod.fst
  rw [List.map_map]
  exact hdistinct

namespace UnitFiles

variable {base fs : FileSystem} {path : String} {dir : Place} {files : List (String × Nat)}
  (U : UnitFiles base dir files fs) (T : Target base path dir)
include U T

/-- The directory contains the files of the units. -/
theorem contents_eq :
    fs.contents dir = files.map fun file => (file.1 ++ ".j", some (fs.bytes file.2)) := by
  have hunits : (files.map fun file => (unitPlace dir file.1, Node.file file.2)).filter
      (fun entry => isBelow dir entry.1) =
      files.map fun file => (unitPlace dir file.1, Node.file file.2) := by
    rw [List.filter_eq_self]
    intro entry hentry
    obtain ⟨file, -, rfl⟩ := List.mem_map.mp hentry
    exact isBelow_unitPlace dir file.1
  have hbase : base.nodes.filter (fun entry => isBelow dir entry.1) = [] := by
    rw [List.filter_eq_nil_iff]
    rintro ⟨place, node⟩ hentry
    simp [T.bare place node (T.wellFormed.node?_of_mem hentry)]
  rw [contents, listing_eq, U.nodes, List.filter_append, hunits, hbase, List.append_nil,
    List.map_map, List.map_map]
  apply List.map_congr_left
  intro file _
  simp [unitPlace, nodeBytes]

/-- So it contains units whose texts these files hold. -/
theorem contents_perm {units : List (String × String)} (hunits : (units.map Prod.fst).Nodup)
    (h : ∀ name, (units.lookup name).map String.toUTF8 = unitBytes files fs name) :
    (fs.contents dir).Perm (units.map fun unit => (unit.1 ++ ".j", some unit.2.toUTF8)) := by
  have hperm : (files.map fun file => (file.1, fs.bytes file.2)).Perm
      (units.map fun unit => (unit.1, unit.2.toUTF8)) := by
    rw [List.perm_ext_iff_of_nodup (nodup_map_values U.names fs.bytes)
      (nodup_map_values hunits String.toUTF8)]
    rintro ⟨name, bytes⟩
    rw [mem_map_values U.names, mem_map_values hunits, h name]
    rfl
  have hnamed := hperm.map fun entry => (entry.1 ++ ".j", some entry.2)
  rw [List.map_map, List.map_map] at hnamed
  rw [U.contents_eq T]
  exact hnamed

/-- The file system is still a tree. -/
theorem wellFormed : fs.WellFormed := by
  have hwithin := U.within T
  obtain ⟨names, left, -, hwalk⟩ := T.walk
  have hdir : base.node? dir = some .dir :=
    T.wellFormed.walk_isDir rfl (hwalk base (within_refl base))
  refine ⟨?_, ?_, ?_⟩
  · rw [U.nodes, List.map_append, List.map_map, List.nodup_append]
    refine ⟨?_, T.wellFormed.distinct, ?_⟩
    · have hplaces := U.names.map fun _ _ => @unitPlace_injective dir _ _
      rwa [List.map_map] at hplaces
    · intro place hunit other hold
      obtain ⟨file, -, rfl⟩ := List.mem_map.mp hunit
      obtain ⟨⟨other, node⟩, hentry, rfl⟩ := List.mem_map.mp hold
      intro (heq : unitPlace dir file.1 = other)
      have hbare := T.bare other node (T.wellFormed.node?_of_mem hentry)
      rw [← heq, isBelow_unitPlace] at hbare
      cases hbare
  · intro entry hentry
    rw [U.nodes, List.mem_append] at hentry
    rcases hentry with hunit | hold
    · obtain ⟨file, hfile, rfl⟩ := List.mem_map.mp hunit
      exact ⟨file.1 ++ ".j", dir, rfl, U.legal file hfile, hwithin dir _ hdir⟩
    · obtain ⟨name, outer, heq, hlegal, houter⟩ := T.wellFormed.named entry hold
      exact ⟨name, outer, heq, hlegal, hwithin outer _ houter⟩
  · intro place number hentry
    rw [U.nodes, List.mem_append] at hentry
    rcases hentry with hunit | hold
    · obtain ⟨file, hfile, heq⟩ := List.mem_map.mp hunit
      obtain ⟨-, hnumber⟩ := Prod.mk.inj heq
      cases hnumber
      exact (U.fresh file hfile).2
    · have hlt := T.wellFormed.numbered place number hold
      have hsize := U.size_le
      omega

end UnitFiles

end FileSystem

end JasminGen
