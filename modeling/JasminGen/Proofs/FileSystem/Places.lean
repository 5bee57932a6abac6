/-
  JasminGen.Proofs.FileSystem.Places

  File systems as trees. In a well-formed one every place lies in a directory, so that a
  walk from a directory ends at a directory. What a walk has found once is found again as
  long as nothing on its way is taken away; removing only takes places away.

  Main definitions: `Path.Legal`, `FileSystem.WellFormed`, `FileSystem.Within`. Main results:
  `FileSystem.walk_within`, `FileSystem.WellFormed.walk_isDir`.
-/

import JasminGen.FileSystem.Basic

namespace JasminGen

/-- A name between the slashes of a path. -/
structure Path.Piece (name : String) : Prop where
  nonempty : name ≠ ""
  noSlash : '/' ∉ name.toList
  noNul : ∀ c ∈ name.toList, c.toNat ≠ 0

/-- A name that an entry of a directory can have. -/
structure Path.Legal (name : String) : Prop extends Path.Piece name where
  noDot : name ≠ "."
  noDots : name ≠ ".."
  short : name.utf8ByteSize ≤ Path.nameLimit

theorem Path.all_ne_nul {name : String} :
    (name.toList.all fun c => c.toNat != 0) = true ↔ ∀ c ∈ name.toList, c.toNat ≠ 0 := by
  simp

instance (name : String) : Decidable (Path.Piece name) :=
  decidable_of_iff
    (name ≠ "" ∧ '/' ∉ name.toList ∧ (name.toList.all fun c => c.toNat != 0) = true)
    ⟨fun ⟨hempty, hslash, hnul⟩ => ⟨hempty, hslash, Path.all_ne_nul.mp hnul⟩,
      fun h => ⟨h.nonempty, h.noSlash, Path.all_ne_nul.mpr h.noNul⟩⟩

instance (name : String) : Decidable (Path.Legal name) :=
  decidable_of_iff
    (Path.Piece name ∧ name ≠ "." ∧ name ≠ ".." ∧ name.utf8ByteSize ≤ Path.nameLimit)
    ⟨fun ⟨hpiece, hdot, hdots, hshort⟩ => ⟨hpiece, hdot, hdots, hshort⟩,
      fun h => ⟨h.toPiece, h.noDot, h.noDots, h.short⟩⟩

namespace FileSystem

-- ============================================================================
-- What stands at a place
-- ============================================================================

@[simp] theorem node?_nil (fs : FileSystem) : fs.node? [] = some .dir := rfl

@[simp] theorem node?_cons (fs : FileSystem) (name : String) (outer : Place) :
    fs.node? (name :: outer) = fs.nodes.lookup (name :: outer) := rfl

theorem lookup_filter (nodes : List (Place × Node)) (keep : Place → Bool) (place : Place) :
    (nodes.filter fun (other, _) => keep other).lookup place =
      if keep place then nodes.lookup place else none := by
  induction nodes with
  | nil => simp
  | cons entry rest ih =>
      obtain ⟨other, node⟩ := entry
      by_cases hsame : place = other
      · subst hsame
        cases hkeep : keep place with
        | true => simp [hkeep]
        | false => simp [hkeep, ih]
      · have hne : (place == other) = false := beq_eq_false_iff_ne.mpr hsame
        cases hkeep : keep other with
        | true => simp [hkeep, List.lookup_cons, hne, ih]
        | false => simp [hkeep, List.lookup_cons, hne, ih]

theorem isBelow_iff {dir place : Place} : isBelow dir place = true ↔ dir <:+ place ∧ dir ≠ place := by
  simp [isBelow]

theorem isBelow_of_suffix {dir place : Place} {name : String} (h : name :: dir <:+ place) :
    isBelow dir place = true := by
  refine isBelow_iff.mpr ⟨(List.suffix_cons name dir).trans h, ?_⟩
  rintro rfl
  have hlength := h.length_le
  rw [List.length_cons] at hlength
  omega

/-- Nothing is left inside of a directory that was cleared, and the rest stays. -/
theorem node?_clear (fs : FileSystem) (dir place : Place) :
    (fs.clear dir).node? place = if isBelow dir place then none else fs.node? place := by
  cases place with
  | nil =>
      have hout : isBelow dir [] = false := by
        cases dir <;> simp [isBelow]
      rw [hout]
      rfl
  | cons name outer =>
      have hkept := lookup_filter fs.nodes (fun place => !isBelow dir place) (name :: outer)
      rw [node?_cons, node?_cons, clear, hkept]
      cases isBelow dir (name :: outer) <;> rfl

theorem node?_remove (fs : FileSystem) (name : String) (dir place : Place) :
    (fs.remove (name :: dir)).node? place =
      if (name :: dir).isSuffixOf place then none else fs.node? place := by
  cases place with
  | nil => simp
  | cons other outer =>
      have hkept := lookup_filter fs.nodes (fun place => !(name :: dir).isSuffixOf place)
        (other :: outer)
      rw [node?_cons, node?_cons, remove, hkept]
      cases (name :: dir).isSuffixOf (other :: outer) <;> rfl

theorem node?_add (fs : FileSystem) (name : String) (outer place : Place) (node : Node) :
    (fs.add (name :: outer) node).node? place =
      if place = name :: outer then some node else fs.node? place := by
  cases place with
  | nil => rfl
  | cons other around =>
      rw [node?_cons, node?_cons, add, List.lookup_cons]
      by_cases hsame : other :: around = name :: outer
      · rw [if_pos hsame, beq_iff_eq.mpr hsame]
      · rw [if_neg hsame, beq_eq_false_iff_ne.mpr hsame]

section Lookup

variable {α β : Type} [BEq α] [LawfulBEq α] {entries : List (α × β)} {key : α} {value : β}

theorem mem_of_lookup (h : entries.lookup key = some value) : (key, value) ∈ entries := by
  obtain ⟨before, after, rfl, -⟩ := List.lookup_eq_some_iff.mp h
  simp

theorem lookup_of_mem (hdistinct : (entries.map Prod.fst).Nodup) (h : (key, value) ∈ entries) :
    entries.lookup key = some value := by
  induction entries with
  | nil => cases h
  | cons entry rest ih =>
      obtain ⟨other, found⟩ := entry
      rw [List.map_cons, List.nodup_cons] at hdistinct
      rcases List.mem_cons.mp h with heq | hrest
      · obtain ⟨rfl, rfl⟩ := Prod.mk.inj heq
        simp
      · have hne : key ≠ other := by
          rintro rfl
          exact hdistinct.1 (List.mem_map.mpr ⟨_, hrest, rfl⟩)
        rw [List.lookup_cons, beq_eq_false_iff_ne.mpr hne]
        exact ih hdistinct.2 hrest

end Lookup

-- ============================================================================
-- Walks
-- ============================================================================

/-- What stands in `fs` stands in `fs'` too. -/
def Within (fs fs' : FileSystem) : Prop :=
  ∀ place node, fs.node? place = some node → fs'.node? place = some node

theorem within_refl (fs : FileSystem) : fs.Within fs :=
  fun _ _ h => h

theorem clear_within (fs : FileSystem) (dir : Place) : (fs.clear dir).Within fs := by
  intro place node h
  rw [node?_clear] at h
  split at h
  · cases h
  · exact h

theorem within_add {fs : FileSystem} {name : String} {outer : Place}
    (hfree : fs.node? (name :: outer) = none) (node : Node) :
    fs.Within (fs.add (name :: outer) node) := by
  intro place found h
  rw [node?_add, if_neg]
  · exact h
  · rintro rfl
    rw [hfree] at h
    cases h

variable {fs fs' : FileSystem}

/-- A place that is no link stands for itself. -/
theorem settle_eq_self {place : Place} (h : ∀ target, fs.node? place ≠ some (.link target))
    (budget : Nat) : fs.settle budget place = .ok (place, budget) := by
  rw [settle.eq_def]
  dsimp only
  split
  · next target hlink => exact absurd hlink (h target)
  · rfl

theorem settle_link {place target : Place} (h : fs.node? place = some (.link target))
    (budget : Nat) : fs.settle (budget + 1) place = fs.settle budget target := by
  rw [settle, h]

theorem settle_within (h : fs.Within fs') {budget left : Nat} {place found : Place} {node : Node}
    (hsettle : fs.settle budget place = .ok (found, left)) (hfound : fs.node? found = some node) :
    fs'.settle budget place = .ok (found, left) := by
  induction budget generalizing place with
  | zero =>
      have hlink : ∀ target, fs.node? place ≠ some (.link target) := by
        intro target hlink
        rw [settle, hlink] at hsettle
        cases hsettle
      rw [settle_eq_self hlink] at hsettle
      obtain ⟨rfl, rfl⟩ := Prod.mk.inj (Except.ok.inj hsettle)
      exact settle_eq_self (by rwa [h place node hfound, ← hfound]) 0
  | succ budget ih =>
      by_cases hlink : ∃ target, fs.node? place = some (.link target)
      · obtain ⟨target, hlink⟩ := hlink
        rw [settle_link hlink] at hsettle
        rw [settle_link (h place _ hlink)]
        exact ih hsettle
      · rw [not_exists] at hlink
        rw [settle_eq_self hlink] at hsettle
        obtain ⟨rfl, rfl⟩ := Prod.mk.inj (Except.ok.inj hsettle)
        exact settle_eq_self (by rwa [h place node hfound, ← hfound]) (budget + 1)

/-- One step of a walk along a name that is no dot: the name settles at a directory. -/
theorem walk_cons {budget : Nat} {place : Place} {name : String} {rest : List String}
    {result : Place × Nat} (hdot : name ≠ ".") (hdots : name ≠ "..") :
    fs.walk budget place (name :: rest) = .ok result ↔
      name.utf8ByteSize ≤ Path.nameLimit ∧ ∃ found left,
        fs.settle budget (name :: place) = .ok (found, left) ∧ fs.node? found = some .dir ∧
        fs.walk left found rest = .ok result := by
  rw [walk, if_neg hdot, if_neg hdots]
  by_cases hlong : Path.nameLimit < name.utf8ByteSize
  · rw [if_pos hlong]
    simp [Nat.not_le.mpr hlong]
  · rw [if_neg hlong]
    cases hsettle : fs.settle budget (name :: place) with
    | error reason => simp
    | ok result =>
        obtain ⟨found, left⟩ := result
        have hshort := Nat.le_of_not_lt hlong
        cases hfound : fs.node? found with
        | none => simp [hfound]
        | some node =>
            cases node with
            | dir =>
                simp only [hfound]
                refine ⟨fun hrest => ⟨hshort, found, left, rfl, hfound, hrest⟩, ?_⟩
                rintro ⟨-, _, _, ⟨⟩, -, hrest⟩
                exact hrest
            | file | link => simp [hfound]

/-- A walk finds the same directory where nothing on its way is missing. -/
theorem walk_within (h : fs.Within fs') {budget : Nat} {place : Place} {names : List String}
    {result : Place × Nat} (hwalk : fs.walk budget place names = .ok result) :
    fs'.walk budget place names = .ok result := by
  induction names generalizing budget place with
  | nil => exact hwalk
  | cons name rest ih =>
      by_cases hdot : name = "."
      · rw [walk, if_pos hdot] at hwalk ⊢
        exact ih hwalk
      · by_cases hdots : name = ".."
        · rw [walk, if_neg hdot, if_pos hdots] at hwalk ⊢
          exact ih hwalk
        · rw [walk_cons hdot hdots] at hwalk ⊢
          obtain ⟨hshort, found, left, hsettle, hdir, hrest⟩ := hwalk
          exact ⟨hshort, found, left, settle_within h hsettle hdir, h found _ hdir, ih hrest⟩

theorem openDir_eq_ok {names : List String} {dir : Place} :
    fs.openDir names = .ok dir ↔ ∃ left, fs.walk linkLimit [] names.reverse = .ok (dir, left) := by
  rw [openDir]
  cases fs.walk linkLimit [] names.reverse with
  | error reason => simp [Except.map]
  | ok result => simp [Except.map, Prod.ext_iff]

-- ============================================================================
-- Well-formed file systems
-- ============================================================================

/-- Places are different, every place has a legal name in a directory, and files have
    bytes. -/
structure WellFormed (fs : FileSystem) : Prop where
  distinct : (fs.nodes.map Prod.fst).Nodup
  named : ∀ entry ∈ fs.nodes, ∃ name outer, entry.1 = name :: outer ∧ Path.Legal name ∧
    fs.node? outer = some .dir
  numbered : ∀ place number, (place, .file number) ∈ fs.nodes → number < fs.files.size

/-- Whether an entry has a legal name in a directory, and bytes if it is a file. -/
def admits (fs : FileSystem) : Place × Node → Bool
  | ([], _) => false
  | (name :: outer, node) =>
    decide (Path.Legal name) && decide (fs.node? outer = some .dir) &&
      match node with
      | .file number => decide (number < fs.files.size)
      | .dir | .link _ => true

theorem wellFormed_iff : fs.WellFormed ↔
    (fs.nodes.map Prod.fst).Nodup ∧ ∀ entry ∈ fs.nodes, fs.admits entry = true := by
  refine ⟨fun h => ⟨h.distinct, ?_⟩, fun ⟨hdistinct, hall⟩ => ⟨hdistinct, ?_, ?_⟩⟩
  · rintro ⟨place, node⟩ hentry
    obtain ⟨name, outer, rfl, hlegal, hdir⟩ := h.named _ hentry
    cases node with
    | file number => simpa [admits, hlegal, hdir] using h.numbered _ number hentry
    | dir | link => simp [admits, hlegal, hdir]
  · rintro ⟨place, node⟩ hentry
    have hadmits := hall _ hentry
    cases place with
    | nil => cases hadmits
    | cons name outer =>
        simp only [admits, Bool.and_eq_true, decide_eq_true_eq] at hadmits
        exact ⟨name, outer, rfl, hadmits.1⟩
  · intro place number hentry
    have hadmits := hall _ hentry
    cases place with
    | nil => cases hadmits
    | cons name outer =>
        simp only [admits, Bool.and_eq_true, decide_eq_true_eq] at hadmits
        exact hadmits.2

instance (fs : FileSystem) : Decidable fs.WellFormed :=
  decidable_of_iff _ wellFormed_iff.symm

namespace WellFormed

variable (h : fs.WellFormed)
include h

theorem node?_of_mem {place : Place} {node : Node} (hentry : (place, node) ∈ fs.nodes) :
    fs.node? place = some node := by
  obtain ⟨name, outer, rfl, -⟩ := h.named _ hentry
  exact lookup_of_mem h.distinct hentry

/-- Around whatever stands somewhere there is a directory. -/
theorem parent_isDir {name : String} {outer : Place} {node : Node}
    (hnode : fs.node? (name :: outer) = some node) : fs.node? outer = some .dir := by
  obtain ⟨name', outer', heq, -, hdir⟩ := h.named _ (mem_of_lookup hnode)
  obtain ⟨rfl, rfl⟩ := List.cons.inj heq
  exact hdir

theorem tail_isDir {place : Place} (hplace : fs.node? place = some .dir) :
    fs.node? place.tail = some .dir := by
  cases place with
  | nil => rfl
  | cons name outer => exact h.parent_isDir hplace

/-- A walk from a directory ends at a directory. -/
theorem walk_isDir {budget : Nat} {place : Place} {names : List String} {result : Place × Nat}
    (hplace : fs.node? place = some .dir) (hwalk : fs.walk budget place names = .ok result) :
    fs.node? result.1 = some .dir := by
  induction names generalizing budget place with
  | nil =>
      obtain rfl := Except.ok.inj hwalk
      exact hplace
  | cons name rest ih =>
      by_cases hdot : name = "."
      · rw [walk, if_pos hdot] at hwalk
        exact ih hplace hwalk
      · by_cases hdots : name = ".."
        · rw [walk, if_neg hdot, if_pos hdots] at hwalk
          exact ih (h.tail_isDir hplace) hwalk
        · obtain ⟨-, found, left, -, hdir, hrest⟩ := (walk_cons hdot hdots).mp hwalk
          exact ih hdir hrest

/-- A directory can be made in another one. -/
theorem add {name : String} {outer : Place} (hlegal : Path.Legal name)
    (houter : fs.node? outer = some .dir) (hfree : fs.node? (name :: outer) = none) :
    (fs.add (name :: outer) .dir).WellFormed := by
  have hwithin := within_add hfree .dir
  refine ⟨?_, ?_, ?_⟩
  · have hnew : name :: outer ∉ fs.nodes.map Prod.fst := by
      intro hmem
      obtain ⟨⟨place, node⟩, hentry, rfl⟩ := List.mem_map.mp hmem
      rw [node?_cons, lookup_of_mem h.distinct hentry] at hfree
      cases hfree
    exact List.nodup_cons.mpr ⟨hnew, h.distinct⟩
  · intro entry hentry
    rcases List.mem_cons.mp hentry with rfl | hentry
    · exact ⟨name, outer, rfl, hlegal, hwithin outer _ houter⟩
    · obtain ⟨name', outer', heq, hlegal', hdir⟩ := h.named entry hentry
      exact ⟨name', outer', heq, hlegal', hwithin outer' _ hdir⟩
  · intro place number hentry
    rcases List.mem_cons.mp hentry with heq | hentry
    · cases heq
    · exact h.numbered place number hentry

theorem clear (dir : Place) : (fs.clear dir).WellFormed := by
  refine ⟨?_, ?_, ?_⟩
  · exact h.distinct.sublist (List.filter_sublist.map Prod.fst)
  · intro entry hentry
    obtain ⟨hentry, hout⟩ := List.mem_filter.mp hentry
    obtain ⟨name, outer, heq, hlegal, hdir⟩ := h.named entry hentry
    refine ⟨name, outer, heq, hlegal, ?_⟩
    -- what lies around a place outside of the directory is outside too
    have houter : ¬isBelow dir outer = true := by
      intro hbelow
      obtain ⟨hsuffix, hne⟩ := isBelow_iff.mp hbelow
      have hentryBelow : isBelow dir entry.1 = true := by
        rw [heq, isBelow_iff]
        refine ⟨hsuffix.trans (List.suffix_cons name outer), ?_⟩
        rintro rfl
        have hlength := hsuffix.length_le
        rw [List.length_cons] at hlength
        omega
      simp [hentryBelow] at hout
    rw [node?_clear, if_neg houter]
    exact hdir
  · intro place number hentry
    exact h.numbered place number (List.mem_filter.mp hentry).1

end WellFormed

-- ============================================================================
-- Entries of directories
-- ============================================================================

theorem mem_entries {dir : Place} {name : String} :
    name ∈ fs.entries dir ↔ ∃ node, (name :: dir, node) ∈ fs.nodes := by
  rw [entries, List.mem_filterMap]
  refine ⟨?_, ?_⟩
  · rintro ⟨⟨place, node⟩, hentry, hname⟩
    cases place with
    | nil => cases hname
    | cons other outer =>
        dsimp only at hname
        split at hname
        · next heq =>
            obtain rfl := Option.some.inj hname
            exact ⟨node, heq ▸ hentry⟩
        · cases hname
  · rintro ⟨node, hentry⟩
    exact ⟨_, hentry, by simp⟩

namespace WellFormed

variable (h : fs.WellFormed)
include h

theorem nodup_entries (dir : Place) : (fs.entries dir).Nodup := by
  have hpairs : fs.nodes.Pairwise fun entry entry' => entry.1 ≠ entry'.1 :=
    List.pairwise_map.mp h.distinct
  refine List.Pairwise.filterMap _ ?_ hpairs
  rintro ⟨place, node⟩ ⟨place', node'⟩ hne name hname name' hname'
  cases place with
  | nil => cases hname
  | cons first outer =>
      cases place' with
      | nil => cases hname'
      | cons second outer' =>
          dsimp only at hname hname'
          split at hname
          · next heq =>
              split at hname'
              · next heq' =>
                  cases hname
                  cases hname'
                  rintro rfl
                  exact hne (by rw [heq, heq'])
              · cases hname'
          · cases hname

/-- Whatever lies below a directory lies in one of its entries. -/
theorem exists_entry {dir place : Place} {node : Node} (hnode : fs.node? place = some node)
    (hbelow : isBelow dir place = true) :
    ∃ name ∈ fs.entries dir, name :: dir <:+ place := by
  obtain ⟨hsuffix, hne⟩ := isBelow_iff.mp hbelow
  induction place generalizing node with
  | nil => exact absurd (List.suffix_nil.mp hsuffix) hne
  | cons name outer ih =>
      by_cases heq : dir = outer
      · subst heq
        exact ⟨name, mem_entries.mpr ⟨node, mem_of_lookup hnode⟩, List.suffix_refl _⟩
      · have houter : dir <:+ outer := by
          rcases List.suffix_cons_iff.mp hsuffix with hsame | hsuffix
          · exact absurd hsame hne
          · exact hsuffix
        obtain ⟨entry, hentry, hin⟩ :=
          ih (h.parent_isDir hnode) (isBelow_iff.mpr ⟨houter, heq⟩) houter heq
        exact ⟨entry, hentry, hin.trans (List.suffix_cons name outer)⟩

end WellFormed

end FileSystem

end JasminGen
