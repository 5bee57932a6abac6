/-
  JasminGen.Proofs.FileSystem.Paths

  Paths of entries. A legal name that is joined to a path is the last name of the joined
  path, and the names before it lead where the path leads; so the joined path reaches the
  place of that name in the directory of the path.

  Main results: `Path.parse_join`, `FileSystem.reach_entry`.
-/

import JasminGen.Proofs.FileSystem.Places

namespace JasminGen

namespace Path

-- ============================================================================
-- Pieces of texts
-- ============================================================================

theorem pieces_ne_nil (text : List Char) : pieces text ≠ [] := by
  cases text with
  | nil => simp [pieces]
  | cons c rest =>
      rw [pieces]
      split
      · simp
      · split <;> simp

theorem pieces_append (front rest : List Char) :
    pieces (front ++ '/' :: rest) = pieces front ++ pieces rest := by
  induction front with
  | nil => rfl
  | cons c front ih =>
      rw [List.cons_append, pieces, pieces]
      split
      · rw [ih]
        rfl
      · rw [ih]
        cases hfirst : pieces front with
        | nil => exact absurd hfirst (pieces_ne_nil front)
        | cons piece more => rfl

theorem pieces_eq_singleton {text : List Char} (h : '/' ∉ text) : pieces text = [text] := by
  induction text with
  | nil => rfl
  | cons c rest ih =>
      rw [List.mem_cons, not_or] at h
      rw [pieces, if_neg (Ne.symm h.1), ih h.2]

theorem of_mem_pieces {text piece : List Char} (h : piece ∈ pieces text) :
    '/' ∉ piece ∧ ∀ c ∈ piece, c ∈ text := by
  induction text generalizing piece with
  | nil =>
      obtain rfl := List.mem_singleton.mp h
      simp
  | cons c rest ih =>
      rw [pieces] at h
      split at h
      · rcases List.mem_cons.mp h with rfl | h
        · simp
        · obtain ⟨hslash, hin⟩ := ih h
          exact ⟨hslash, fun d hd => List.mem_cons_of_mem c (hin d hd)⟩
      · next hc =>
          split at h
          · next hnone => exact absurd hnone (pieces_ne_nil rest)
          · next first more hsome =>
              rcases List.mem_cons.mp h with rfl | h
              · obtain ⟨hslash, hin⟩ := ih (hsome ▸ List.mem_cons_self)
                refine ⟨by simp [Ne.symm hc, hslash], ?_⟩
                intro d hd
                rcases List.mem_cons.mp hd with rfl | hd
                · exact List.mem_cons_self
                · exact List.mem_cons_of_mem c (hin d hd)
              · obtain ⟨hslash, hin⟩ := ih (hsome ▸ List.mem_cons_of_mem first h)
                exact ⟨hslash, fun d hd => List.mem_cons_of_mem c (hin d hd)⟩

/-- A joined name is one more piece at the end. -/
theorem pieces_join {path name : String} (h : Piece name) :
    (pieces (join path name).toList).filter (· != []) =
      (pieces path.toList).filter (· != []) ++ [name.toList] := by
  have hname : name.toList ≠ [] := by simpa using h.nonempty
  have hkept : (pieces name.toList).filter (· != []) = [name.toList] := by
    rw [pieces_eq_singleton h.noSlash]
    simp [hname]
  have hhead : name.toList.head? ≠ some '/' := fun hhead => h.noSlash (List.mem_of_head? hhead)
  rw [join, if_neg hhead]
  split
  · next hend =>
      rcases hend with hempty | hlast
      · have hpath : path = "" := by simpa using hempty
        subst hpath
        simpa [pieces] using hkept
      · obtain ⟨front, hfront⟩ := List.getLast?_eq_some_iff.mp hlast
        rw [String.toList_append, hfront, List.append_assoc, List.singleton_append, pieces_append,
          pieces_append, List.filter_append, List.filter_append, hkept]
        simp [pieces]
  · rw [String.toList_append, String.toList_append, List.append_assoc]
    have hslash : "/".toList ++ name.toList = '/' :: name.toList := rfl
    rw [hslash, pieces_append, List.filter_append, hkept]

-- ============================================================================
-- Names of paths
-- ============================================================================

/-- The names of a path without a dot at its end, which says nothing about the place. -/
def withoutDot (names : List String) : List String :=
  if names.head? = some "." then names.tail else names

theorem withoutDot_namesOf (pieces : List (List Char)) :
    withoutDot (namesOf pieces) = (pieces.filter (· != ['.'])).map String.ofList := by
  cases pieces with
  | nil => rfl
  | cons last rest =>
      by_cases hdot : last = ['.']
      · subst hdot
        rfl
      · have hname : String.ofList last ≠ "." := by
          intro heq
          exact hdot (String.ofList_injective heq)
        simp [withoutDot, namesOf, hname, hdot]

theorem parse_eq_ok {path : String} {names : List String} :
    parse path = .ok names ↔ (∀ c ∈ path.toList, c.toNat ≠ 0) ∧
      path.utf8ByteSize ≤ pathLimit ∧ path ≠ "" ∧
      namesOf ((pieces path.toList).filter (· != [])).reverse = names := by
  unfold parse
  by_cases hnul : path.toList.any fun c => c.toNat == 0
  · rw [if_pos hnul]
    simp only [List.any_eq_true, beq_iff_eq] at hnul
    simp only [reduceCtorEq, false_iff, not_and]
    intro hnone
    obtain ⟨c, hc, hzero⟩ := hnul
    exact absurd hzero (hnone c hc)
  · rw [if_neg hnul]
    have hnone : ∀ c ∈ path.toList, c.toNat ≠ 0 := by simpa using hnul
    by_cases hlong : pathLimit < path.utf8ByteSize
    · rw [if_pos hlong]
      simp [Nat.not_le.mpr hlong]
    · rw [if_neg hlong]
      by_cases hempty : path = ""
      · simp [hempty]
      · rw [if_neg hempty]
        exact ⟨fun h => ⟨hnone, Nat.le_of_not_lt hlong, hempty, Except.ok.inj h⟩,
          fun h => congrArg _ h.2.2.2⟩

theorem ne_empty_of_parse {path : String} {names : List String} (h : parse path = .ok names) :
    path ≠ "" :=
  (parse_eq_ok.mp h).2.2.1

theorem of_mem_namesOf {pieces : List (List Char)} {name : String} (h : name ∈ namesOf pieces) :
    ∃ piece ∈ pieces, name = String.ofList piece := by
  cases pieces with
  | nil => cases h
  | cons last rest =>
      rcases List.mem_cons.mp h with rfl | h
      · exact ⟨last, List.mem_cons_self, rfl⟩
      · obtain ⟨piece, hpiece, rfl⟩ := List.mem_map.mp h
        exact ⟨piece, List.mem_cons_of_mem last (List.mem_filter.mp hpiece).1, rfl⟩

/-- The names of a path are its pieces. -/
theorem piece_of_parse {path name : String} {names : List String} (h : parse path = .ok names)
    (hname : name ∈ names) : Piece name := by
  obtain ⟨hnul, -, -, rfl⟩ := parse_eq_ok.mp h
  obtain ⟨piece, hpiece, rfl⟩ := of_mem_namesOf hname
  rw [List.mem_reverse, List.mem_filter] at hpiece
  obtain ⟨hslash, hin⟩ := of_mem_pieces hpiece.1
  have hne : piece ≠ [] := by simpa using hpiece.2
  refine ⟨by simpa using hne, ?_, ?_⟩
  · rwa [String.toList_ofList]
  · rw [String.toList_ofList]
    exact fun c hc => hnul c (hin c hc)

theorem join_ne_empty (path : String) {name : String} (h : name ≠ "") : join path name ≠ "" := by
  rw [join]
  split
  · exact h
  · split <;> simp [h]

theorem of_mem_join {path name : String} {c : Char} (h : c ∈ (join path name).toList) :
    c ∈ path.toList ∨ c = '/' ∨ c ∈ name.toList := by
  rw [join] at h
  split at h
  · exact .inr (.inr h)
  · split at h
    · rw [String.toList_append, List.mem_append] at h
      exact h.imp_right .inr
    · rw [String.toList_append, String.toList_append, List.mem_append, List.mem_append] at h
      rcases h with (h | h) | h
      · exact .inl h
      · exact .inr (.inl (List.mem_singleton.mp h))
      · exact .inr (.inr h)

/-- A name that can be asked for below a path. -/
structure Fits (path name : String) : Prop extends Legal name where
  joined : (join path name).utf8ByteSize ≤ pathLimit

theorem parse_join {path name : String} {names : List String} (h : parse path = .ok names)
    (hfits : Fits path name) :
    parse (join path name) = .ok (name :: withoutDot names) := by
  obtain ⟨hnul, -, -, rfl⟩ := parse_eq_ok.mp h
  refine parse_eq_ok.mpr ⟨?_, ?_, ?_, ?_⟩
  · intro c hc
    rcases of_mem_join hc with hc | rfl | hc
    · exact hnul c hc
    · decide
    · exact hfits.noNul c hc
  · exact hfits.joined
  · exact join_ne_empty path hfits.nonempty
  · rw [pieces_join hfits.toPiece, List.reverse_append, withoutDot_namesOf]
    simp [namesOf]

end Path

-- ============================================================================
-- Places of joined paths
-- ============================================================================

namespace FileSystem

variable {fs : FileSystem} {path name : String} {names : List String} {dir : Place} {left : Nat}

theorem walk_append (budget : Nat) (place : Place) (names names' : List String) :
    fs.walk budget place (names ++ names') =
      (fs.walk budget place names).bind fun (found, left) => fs.walk left found names' := by
  induction names generalizing budget place with
  | nil => rfl
  | cons name rest ih =>
      rw [List.cons_append, walk, walk]
      split
      · exact ih budget place
      · split
        · exact ih budget place.tail
        · split
          · rfl
          · cases fs.settle budget (name :: place) with
            | error reason => rfl
            | ok result =>
                obtain ⟨found, left⟩ := result
                dsimp only
                cases fs.node? found with
                | none => rfl
                | some node =>
                    cases node with
                    | dir => exact ih left found
                    | file | link => rfl

theorem walk_withoutDot (budget : Nat) (place : Place) (names : List String) :
    fs.walk budget place (Path.withoutDot names).reverse = fs.walk budget place names.reverse := by
  unfold Path.withoutDot
  split
  · next hdot =>
      obtain ⟨outer, rfl⟩ := List.head?_eq_some_iff.mp hdot
      rw [List.reverse_cons, walk_append, List.tail_cons]
      cases fs.walk budget place outer.reverse <;> rfl
  · rfl

/-- A legal name below a directory is reached in it. -/
theorem reach_entry (hlegal : Path.Legal name)
    (hwalk : fs.walk linkLimit [] names.reverse = .ok (dir, left)) :
    fs.reach (name :: Path.withoutDot names) = .ok (name :: dir, left) := by
  have hplain : ¬(name = "." ∨ name = "..") := fun h => h.elim hlegal.noDot hlegal.noDots
  have hshort : ¬Path.nameLimit < name.utf8ByteSize := Nat.not_lt.mpr hlegal.short
  rw [reach, if_neg hplain, walk_withoutDot, hwalk]
  dsimp only
  rw [if_neg hshort]

/-- The path of an entry leads to its place in the directory. -/
theorem locate_join (hparse : Path.parse path = .ok names) (hfits : Path.Fits path name)
    (hwalk : fs.walk linkLimit [] names.reverse = .ok (dir, left)) :
    (Path.parse (Path.join path name)).bind fs.locate = .ok (name :: dir) := by
  rw [Path.parse_join hparse hfits]
  show (fs.reach (name :: Path.withoutDot names)).map Prod.fst = _
  rw [reach_entry hfits.toLegal hwalk]
  rfl

end FileSystem

end JasminGen
