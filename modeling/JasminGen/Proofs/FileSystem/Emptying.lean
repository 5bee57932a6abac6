/-
  JasminGen.Proofs.FileSystem.Emptying

  Making a directory and emptying it. Making it adds directories where nothing was, and
  nothing if it is there already. Emptying it removes its entries one by one, each by its
  own path; as long as the path of the directory does not run through what is removed, all
  of them go and nothing else does.

  Main definition: `FileSystem.Grown`. Main results: `FileSystem.createDirAll_grown`,
  `FileSystem.emptyDir_eq`.
-/

import JasminGen.Proofs.FileSystem.Paths

namespace JasminGen

namespace FileSystem

-- ============================================================================
-- Making directories
-- ============================================================================

/-- The file system `made` has come from `fs` by making directories. -/
structure Grown (fs made : FileSystem) : Prop where
  wellFormed : made.WellFormed
  files : made.files = fs.files
  node?_eq : ∀ place, made.node? place = fs.node? place ∨
    fs.node? place = none ∧ made.node? place = some .dir

variable {fs made : FileSystem}

theorem WellFormed.grown_refl (h : fs.WellFormed) : Grown fs fs :=
  ⟨h, rfl, fun _ => .inl rfl⟩

theorem Grown.trans {fs₁ fs₂ : FileSystem} (h : Grown fs fs₁) (h' : Grown fs₁ fs₂) :
    Grown fs fs₂ := by
  refine ⟨h'.wellFormed, h'.files.trans h.files, fun place => ?_⟩
  rcases h'.node?_eq place with hsame | ⟨hnone, hdir⟩
  · rw [hsame]
    exact h.node?_eq place
  · rcases h.node?_eq place with hsame | ⟨_, hmade⟩
    · exact .inr ⟨hsame ▸ hnone, hdir⟩
    · rw [hmade] at hnone
      cases hnone

/-- A path leads to a directory, or to a name in one. -/
theorem locate_cases (h : fs.WellFormed) {names : List String} {place : Place}
    (hlocate : fs.locate names = .ok place) :
    fs.node? place = some .dir ∨ ∃ name rest outer left, names = name :: rest ∧
      place = name :: outer ∧ name ≠ "." ∧ name ≠ ".." ∧ name.utf8ByteSize ≤ Path.nameLimit ∧
      fs.walk linkLimit [] rest.reverse = .ok (outer, left) := by
  rw [locate] at hlocate
  cases hreach : fs.reach names with
  | error reason =>
      rw [hreach] at hlocate
      cases hlocate
  | ok result =>
      rw [hreach] at hlocate
      obtain rfl : result.1 = place := Except.ok.inj hlocate
      cases names with
      | nil =>
          obtain rfl := Except.ok.inj hreach
          exact .inl rfl
      | cons name rest =>
          rw [reach] at hreach
          split at hreach
          · exact .inl (h.walk_isDir rfl hreach)
          · next hplain =>
              rw [not_or] at hplain
              cases hwalk : fs.walk linkLimit [] rest.reverse with
              | error reason =>
                  rw [hwalk] at hreach
                  cases hreach
              | ok found =>
                  rw [hwalk] at hreach
                  dsimp only at hreach
                  split at hreach
                  · cases hreach
                  · next hshort =>
                      obtain rfl := Except.ok.inj hreach
                      exact .inr ⟨name, rest, found.1, found.2, rfl, rfl, hplain.1, hplain.2,
                        Nat.le_of_not_lt hshort, hwalk⟩

/-- A directory is made in a directory, under a legal name that is free. -/
theorem createDir_cases (h : fs.WellFormed) {names : List String}
    (hnames : ∀ name ∈ names, Path.Piece name) (hcreate : fs.createDir names = .ok made) :
    ∃ name outer, Path.Legal name ∧ fs.node? outer = some .dir ∧
      fs.node? (name :: outer) = none ∧ made = fs.add (name :: outer) .dir := by
  rw [createDir] at hcreate
  cases hlocate : fs.locate names with
  | error reason =>
      rw [hlocate] at hcreate
      cases hcreate
  | ok place =>
      rw [hlocate] at hcreate
      dsimp only at hcreate
      cases hfree : fs.node? place with
      | some node =>
          rw [hfree] at hcreate
          cases hcreate
      | none =>
          rw [hfree] at hcreate
          obtain rfl := Except.ok.inj hcreate
          rcases locate_cases h hlocate with
            hdir | ⟨name, rest, outer, left, rfl, rfl, hdot, hdots, hshort, hwalk⟩
          · rw [hfree] at hdir
            cases hdir
          · have hpiece := hnames name List.mem_cons_self
            exact ⟨name, outer, ⟨hpiece, hdot, hdots, hshort⟩, h.walk_isDir rfl hwalk, hfree, rfl⟩

theorem createDir_grown (h : fs.WellFormed) {names : List String}
    (hnames : ∀ name ∈ names, Path.Piece name) (hcreate : fs.createDir names = .ok made) :
    Grown fs made := by
  obtain ⟨name, outer, hlegal, houter, hfree, rfl⟩ := createDir_cases h hnames hcreate
  refine ⟨h.add hlegal houter hfree, rfl, fun place => ?_⟩
  rw [node?_add]
  split
  · next heq => exact .inr ⟨heq ▸ hfree, rfl⟩
  · exact .inl rfl

/-- Make a directory where those around it are there. -/
def createLast (names : List String) (fs : FileSystem) : Except OutputError Unit × FileSystem :=
  match fs.createDir names with
  | .ok made => (.ok (), made)
  | .error reason => if fs.isDir names then (.ok (), fs) else (.error reason, fs)

theorem createLast_grown (h : fs.WellFormed) {names : List String}
    (hnames : ∀ name ∈ names, Path.Piece name) : Grown fs (createLast names fs).2 := by
  rw [createLast]
  cases hcreate : fs.createDir names with
  | ok made => exact createDir_grown h hnames hcreate
  | error reason =>
      dsimp only
      split <;> exact h.grown_refl

/-- The names of the directory that has to be there before another one can be made. -/
def around (name : String) (outer : List String) : List String :=
  if name = "." then outer.tail else outer

/-- The directories around are made first if one of them is missing. -/
theorem createDirAll_missing {name : String} {outer : List String}
    (h : fs.createDir (name :: outer) = .error .notFound) :
    createDirAll (name :: outer) fs =
      match createDirAll (around name outer) fs with
      | (.error reason, left) => (.error reason, left)
      | (.ok (), left) => createLast (name :: outer) left := by
  rw [createDirAll]
  dsimp only
  rw [h]
  unfold around
  by_cases hdot : name = "."
  · simp only [if_pos hdot]
    cases outer <;> rfl
  · simp only [if_neg hdot]
    rfl

theorem createDirAll_last {name : String} {outer : List String}
    (h : fs.createDir (name :: outer) ≠ .error .notFound) :
    createDirAll (name :: outer) fs = createLast (name :: outer) fs := by
  rw [createDirAll, createLast]
  dsimp only
  cases hcreate : fs.createDir (name :: outer) with
  | ok made => rfl
  | error reason =>
      cases reason with
      | notFound => exact absurd hcreate h
      | _ => rfl

/-- Making a directory and those around it makes nothing but directories, also where it
    fails. -/
theorem createDirAll_grown (names : List String) (hnames : ∀ name ∈ names, Path.Piece name)
    (h : fs.WellFormed) : Grown fs (createDirAll names fs).2 := by
  -- the directories around are those of a shorter path
  induction hlength : names.length using Nat.strongRecOn generalizing names fs with
  | ind n ih =>
      subst hlength
      cases names with
      | nil => exact h.grown_refl
      | cons name outer =>
          by_cases hmissing : fs.createDir (name :: outer) = .error .notFound
          · have hshorter : (around name outer).length < (name :: outer).length := by
              unfold around
              split
              · rw [List.length_tail, List.length_cons]
                omega
              · exact Nat.lt_succ_self outer.length
            have haround : ∀ other ∈ around name outer, Path.Piece other := by
              intro other hother
              refine hnames other (List.mem_cons_of_mem name ?_)
              unfold around at hother
              split at hother
              · exact List.mem_of_mem_tail hother
              · exact hother
            have hgrown := ih _ hshorter _ haround h rfl
            rw [createDirAll_missing hmissing]
            rcases hmade : createDirAll (around name outer) fs with ⟨_ | _, left⟩
            · rw [hmade] at hgrown
              exact hgrown
            · rw [hmade] at hgrown
              exact hgrown.trans (createLast_grown hgrown.wellFormed hnames)
          · rw [createDirAll_last hmissing]
            exact createLast_grown h hnames

theorem createDirs_grown (path : String) (h : fs.WellFormed) :
    Grown fs (createDirs path fs).2 := by
  rw [createDirs]
  split
  · exact h.grown_refl
  · cases hparse : Path.parse path with
    | error reason => exact h.grown_refl
    | ok names => exact createDirAll_grown names (fun _ hname => Path.piece_of_parse hparse hname) h

/-- A path to a directory leads to something. -/
theorem createDir_of_openDir (h : fs.WellFormed) {names : List String} {dir : Place}
    (hopen : fs.openDir names = .ok dir) : fs.createDir names = .error .alreadyExists := by
  suffices hplace : ∃ place node, fs.locate names = .ok place ∧ fs.node? place = some node by
    obtain ⟨place, node, hlocate, hnode⟩ := hplace
    rw [createDir, hlocate]
    dsimp only
    rw [hnode]
  obtain ⟨left, hwalk⟩ := openDir_eq_ok.mp hopen
  have hdir := h.walk_isDir rfl hwalk
  cases names with
  | nil => exact ⟨[], .dir, rfl, rfl⟩
  | cons name outer =>
      by_cases hdots : name = "." ∨ name = ".."
      · refine ⟨dir, .dir, ?_, hdir⟩
        rw [locate, reach, if_pos hdots, hwalk]
        rfl
      · -- the last name settles at the directory, so something stands there
        rw [List.reverse_cons, walk_append] at hwalk
        cases houter : fs.walk linkLimit [] outer.reverse with
        | error reason =>
            rw [houter] at hwalk
            cases hwalk
        | ok result =>
            obtain ⟨place, budget⟩ := result
            rw [houter] at hwalk
            change fs.walk budget place [name] = _ at hwalk
            rw [not_or] at hdots
            obtain ⟨hshort, found, rest, hsettle, hfound, -⟩ :=
              (walk_cons hdots.1 hdots.2).mp hwalk
            have hlocate : fs.locate (name :: outer) = .ok (name :: place) := by
              rw [locate, reach, if_neg (not_or.mpr hdots), houter]
              dsimp only
              rw [if_neg (Nat.not_lt.mpr hshort)]
              rfl
            cases hnode : fs.node? (name :: place) with
            | some node => exact ⟨name :: place, node, hlocate, hnode⟩
            | none =>
                rw [settle_eq_self (by simp [hnode])] at hsettle
                obtain ⟨rfl, -⟩ := Prod.mk.inj (Except.ok.inj hsettle)
                rw [hnode] at hfound
                cases hfound

/-- Nothing is made if the directory is there. -/
theorem createDirAll_of_openDir (h : fs.WellFormed) {names : List String} {dir : Place}
    (hopen : fs.openDir names = .ok dir) : createDirAll names fs = (.ok (), fs) := by
  have hexists := createDir_of_openDir h hopen
  cases names with
  | nil => rfl
  | cons name outer =>
      have hdir : fs.isDir (name :: outer) = true := by rw [isDir, hopen]
      rw [createDirAll_last (by simp [hexists]), createLast, hexists]
      dsimp only
      rw [if_pos hdir]

theorem createDirs_of_openDir (h : fs.WellFormed) {path : String} {dir : Place}
    (hopen : (Path.parse path).bind fs.openDir = .ok dir) : createDirs path fs = (.ok (), fs) := by
  cases hparse : Path.parse path with
  | error reason =>
      rw [hparse] at hopen
      cases hopen
  | ok names =>
      rw [hparse] at hopen
      rw [createDirs, if_neg (Path.ne_empty_of_parse hparse), hparse]
      exact createDirAll_of_openDir h hopen

-- ============================================================================
-- Emptying directories
-- ============================================================================

/-- The path leads to the directory `dir`, inside of which nothing is. -/
structure Target (base : FileSystem) (path : String) (dir : Place) : Prop where
  wellFormed : base.WellFormed
  leads : (Path.parse path).bind base.openDir = .ok dir
  bare : ∀ place node, base.node? place = some node → isBelow dir place = false

namespace Target

variable {base : FileSystem} {path name : String} {dir : Place} (T : Target base path dir)
include T

/-- The path leads there also when something more is in the file system. -/
theorem walk : ∃ names left, Path.parse path = .ok names ∧
    ∀ fs, base.Within fs → fs.walk linkLimit [] names.reverse = .ok (dir, left) := by
  have hleads := T.leads
  cases hparse : Path.parse path with
  | error reason =>
      rw [hparse] at hleads
      cases hleads
  | ok names =>
      rw [hparse] at hleads
      obtain ⟨left, hwalk⟩ := openDir_eq_ok.mp hleads
      exact ⟨names, left, rfl, fun fs hfs => walk_within hfs hwalk⟩

theorem locate (hfs : base.Within fs) (hfits : Path.Fits path name) :
    (Path.parse (Path.join path name)).bind fs.locate = .ok (name :: dir) := by
  obtain ⟨names, left, hparse, hwalk⟩ := T.walk
  exact locate_join hparse hfits (hwalk fs hfs)

theorem not_suffix {place : Place} {node : Node} (hnode : base.node? place = some node) :
    ¬(name :: dir).isSuffixOf place = true := by
  intro hsuffix
  have hbelow := isBelow_of_suffix (List.isSuffixOf_iff_suffix.mp hsuffix)
  rw [T.bare place node hnode] at hbelow
  cases hbelow

theorem within_remove (hfs : base.Within fs) : base.Within (fs.remove (name :: dir)) := by
  intro place node hnode
  rw [node?_remove, if_neg (T.not_suffix hnode)]
  exact hfs place node hnode

theorem within_clear (hfs : base.Within fs) : base.Within (fs.clear (name :: dir)) := by
  intro place node hnode
  have hout : ¬isBelow (name :: dir) place = true := by
    intro hbelow
    have hsuffix := (isBelow_iff.mp hbelow).1
    exact T.not_suffix hnode (List.isSuffixOf_iff_suffix.mpr hsuffix)
  rw [node?_clear, if_neg hout]
  exact hfs place node hnode

end Target

theorem remove_clear (fs : FileSystem) (place : Place) :
    (fs.clear place).remove place = fs.remove place := by
  rw [remove, remove, clear, List.filter_filter]
  congr 1
  apply List.filter_congr
  intro entry _
  simp only [isBelow]
  cases place.isSuffixOf entry.1 <;> simp

namespace Target

variable {base : FileSystem} {path name : String} {dir : Place} (T : Target base path dir)
include T

/-- An entry is removed with everything inside of it. -/
theorem removeEntry (hfs : base.Within fs) (hfits : Path.Fits path name) {node : Node}
    (hnode : fs.node? (name :: dir) = some node) :
    FileSystem.removeEntry (Path.join path name) fs = (.ok (), fs.remove (name :: dir)) := by
  rw [FileSystem.removeEntry, T.locate hfs hfits]
  dsimp only
  rw [hnode]
  cases node with
  | dir =>
      dsimp only
      rw [T.locate (T.within_clear hfs) hfits]
      dsimp only
      rw [remove_clear]
  | file | link => rfl

/-- Entries are removed one after the other. The ones to come are still there, since none
    of them lies in another. -/
theorem removeEntries (hfs : base.Within fs) (names : List String) (hdistinct : names.Nodup)
    (hnames : ∀ name ∈ names, Path.Fits path name ∧ ∃ node, fs.node? (name :: dir) = some node) :
    FileSystem.removeEntries path names fs =
      (.ok (), names.foldl (fun fs name => fs.remove (name :: dir)) fs) := by
  induction names generalizing fs with
  | nil => rfl
  | cons name rest ih =>
      rw [List.nodup_cons] at hdistinct
      obtain ⟨hfits, node, hnode⟩ := hnames name List.mem_cons_self
      rw [FileSystem.removeEntries, Attempt.bind_ok (T.removeEntry hfs hfits hnode)]
      refine ih (T.within_remove hfs) hdistinct.2 ?_
      intro other hother
      obtain ⟨hfits', node', hnode'⟩ := hnames other (List.mem_cons_of_mem name hother)
      refine ⟨hfits', node', ?_⟩
      rw [node?_remove, if_neg, hnode']
      intro hsuffix
      have heq := (List.isSuffixOf_iff_suffix.mp hsuffix).eq_of_length rfl
      obtain ⟨rfl, -⟩ := List.cons.inj heq
      exact hdistinct.1 hother

end Target

theorem foldl_remove (fs : FileSystem) (dir : Place) (names : List String) :
    names.foldl (fun fs name => fs.remove (name :: dir)) fs =
      ⟨fs.nodes.filter fun (place, _) => names.all fun name => !(name :: dir).isSuffixOf place,
        fs.files⟩ := by
  induction names generalizing fs with
  | nil =>
      have hall : fs.nodes.filter (fun _ => true) = fs.nodes := List.filter_eq_self.mpr (by simp)
      show fs = ⟨fs.nodes.filter fun _ => true, fs.files⟩
      rw [hall]
  | cons name rest ih =>
      rw [List.foldl_cons, ih, remove]
      dsimp only
      rw [List.filter_filter]
      congr 1
      apply List.filter_congr
      intro entry _
      simp [Bool.and_comm]

/-- Without its entries a directory is empty. -/
theorem WellFormed.foldl_entries (h : fs.WellFormed) (dir : Place) :
    (fs.entries dir).foldl (fun fs name => fs.remove (name :: dir)) fs = fs.clear dir := by
  rw [foldl_remove, FileSystem.clear]
  congr 1
  apply List.filter_congr
  rintro ⟨place, node⟩ hentry
  dsimp only
  cases hbelow : isBelow dir place with
  | true =>
      obtain ⟨name, hname, hin⟩ := h.exists_entry (h.node?_of_mem hentry) hbelow
      rw [Bool.not_true, List.all_eq_false]
      exact ⟨name, hname, by simp [hin]⟩
  | false =>
      rw [Bool.not_false, List.all_eq_true]
      intro name _
      rw [Bool.not_eq_true', Bool.eq_false_iff]
      intro hsuffix
      rw [isBelow_of_suffix (List.isSuffixOf_iff_suffix.mp hsuffix)] at hbelow
      cases hbelow

/-- A directory that is emptied can be written into if the path still leads to it. -/
theorem WellFormed.target_clear (h : made.WellFormed) {path : String} {dir : Place}
    (hleads : (Path.parse path).bind (made.clear dir).openDir = .ok dir) :
    Target (made.clear dir) path dir := by
  refine ⟨h.clear dir, hleads, ?_⟩
  intro place node hnode
  rw [node?_clear] at hnode
  split at hnode
  · cases hnode
  · next hout => exact Bool.eq_false_iff.mpr hout

/-- The directory of a path is made if it is missing, and everything inside of it is
    removed. -/
theorem emptyDir_eq {path : String} {dir : Place} (hmade : createDirs path fs = (.ok (), made))
    (hwell : made.WellFormed) (T : Target (made.clear dir) path dir)
    (hjoined : ∀ name ∈ made.entries dir, (Path.join path name).utf8ByteSize ≤ Path.pathLimit) :
    emptyDir path fs = (.ok (), made.clear dir) := by
  have hwithin := made.clear_within dir
  have hopen : (Path.parse path).bind made.openDir = .ok dir := by
    obtain ⟨names, left, hparse, hwalk⟩ := T.walk
    rw [hparse]
    exact openDir_eq_ok.mpr ⟨left, hwalk made hwithin⟩
  have hget : (get : Attempt OutputError FileSystem FileSystem) made = (.ok made, made) := rfl
  rw [emptyDir, Attempt.bind_ok hmade, Attempt.bind_ok hget, hopen]
  dsimp only
  rw [T.removeEntries hwithin (made.entries dir) (hwell.nodup_entries dir),
    hwell.foldl_entries dir]
  intro name hname
  obtain ⟨node, hentry⟩ := mem_entries.mp hname
  obtain ⟨name', outer, heq, hlegal, -⟩ := hwell.named _ hentry
  obtain ⟨rfl, rfl⟩ := List.cons.inj heq
  exact ⟨⟨hlegal, hjoined name hname⟩, node, hwell.node?_of_mem hentry⟩

end FileSystem

end JasminGen
