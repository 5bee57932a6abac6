/-
  JasminGen.Proofs.Lines

  A unit line by line. Lines are written trimmed behind their indentation, so the lines
  of a unit, trimmed again, are those that the requests of a run consist of.

  Main definitions: `Emission.lines`, `Action.lines`. Main result: `lines_writtenBy`.
-/

import JasminGen.Proofs.Memory

namespace JasminGen

namespace Text

-- ============================================================================
-- Trimmed lines
-- ============================================================================

/-- A line without white space at its ends. -/
structure Trimmed (line : List Char) : Prop where
  head : ∀ c, line.head? = some c → isBlank c = false
  last : ∀ c, line.getLast? = some c → isBlank c = false

theorem dropWhile_isBlank_eq {line : List Char}
    (h : ∀ c, line.head? = some c → isBlank c = false) : line.dropWhile isBlank = line := by
  cases line with
  | nil => rfl
  | cons c rest => rw [List.dropWhile_cons, h c rfl, if_neg (by simp)]

theorem trimStart_eq {line : List Char} (h : ∀ c, line.head? = some c → isBlank c = false) :
    trimStart line = line :=
  dropWhile_isBlank_eq h

theorem trimEnd_eq {line : List Char} (h : ∀ c, line.getLast? = some c → isBlank c = false) :
    trimEnd line = line := by
  rw [trimEnd, dropWhile_isBlank_eq, List.reverse_reverse]
  rwa [List.head?_reverse]

theorem trimStart_append {blanks : List Char} (h : ∀ c ∈ blanks, isBlank c = true)
    (line : List Char) : trimStart (blanks ++ line) = trimStart line :=
  List.dropWhile_append_of_pos h

theorem trimEnd_append (line rest : List Char) :
    trimEnd (line ++ rest) = if trimEnd rest = [] then trimEnd line else line ++ trimEnd rest := by
  simp only [trimEnd, List.reverse_append, List.dropWhile_append, List.isEmpty_iff,
    List.reverse_eq_nil_iff]
  split
  · rfl
  · rw [List.reverse_append, List.reverse_reverse]

theorem Trimmed.trim_eq {line : List Char} (h : Trimmed line) : trim line = line := by
  rw [trim, trimStart_eq h.head, trimEnd_eq h.last]

theorem trimEnd_isPrefix (line : List Char) : trimEnd line <+: line := by
  rw [trimEnd, ← List.reverse_suffix, List.reverse_reverse]
  exact List.dropWhile_suffix _

theorem head?_of_isPrefix {line line' : List Char} (h : line <+: line') {c : Char}
    (hc : line.head? = some c) : line'.head? = some c := by
  obtain ⟨rest, rfl⟩ := h
  rw [List.head?_append, hc]
  rfl

theorem trimmed_trim (line : List Char) : Trimmed (trim line) := by
  refine ⟨?_, ?_⟩
  · intro c hc
    have hstart := List.head?_dropWhile_not isBlank line
    rw [← trimStart, head?_of_isPrefix (trimEnd_isPrefix _) hc] at hstart
    exact hstart
  · intro c hc
    have hend := List.head?_dropWhile_not isBlank (trimStart line).reverse
    rw [trim, trimEnd, List.getLast?_reverse] at hc
    rw [hc] at hend
    exact hend

theorem mem_of_mem_trim {line : List Char} {c : Char} (h : c ∈ trim line) : c ∈ line :=
  (List.dropWhile_suffix isBlank).subset ((trimEnd_isPrefix _).subset h)

-- ============================================================================
-- Lines of texts
-- ============================================================================

theorem lines_cons {c : Char} {rest : List Char} (hlf : c ≠ '\n')
    (hcr : c = '\r' → rest.head? ≠ some '\n') :
    lines (c :: rest) = match lines rest with
      | [] => [[c]]
      | line :: more => (c :: line) :: more := by
  rw [lines.eq_def]
  split
  · next h => cases h
  · next h => exact absurd (List.cons.inj h).1 hlf
  · next h =>
      obtain ⟨rfl, rfl⟩ := List.cons.inj h
      exact absurd rfl (hcr rfl)
  · next h =>
      obtain ⟨rfl, rfl⟩ := List.cons.inj h
      rfl

theorem lineFeed_not_next {c : Char} {rest : List Char}
    (h : ∀ more, c = '\r' → rest = '\n' :: more → False) :
    c = '\r' → rest.head? ≠ some '\n' := by
  intro hc hhead
  obtain ⟨more, rfl⟩ := List.head?_eq_some_iff.mp hhead
  exact h more hc rfl

theorem lineFeed_not_mem {text line : List Char} (h : line ∈ lines text) : '\n' ∉ line := by
  induction text using lines.induct generalizing line with
  | case1 => simp at h
  | case2 rest ih =>
      rcases List.mem_cons.mp h with rfl | h
      · simp
      · exact ih h
  | case3 rest ih =>
      rcases List.mem_cons.mp h with rfl | h
      · simp
      · exact ih h
  | case4 c rest hlf hcr hnone ih =>
      rw [lines_cons hlf (lineFeed_not_next hcr), hnone] at h
      obtain rfl := List.mem_singleton.mp h
      simp [Ne.symm hlf]
  | case5 c rest hlf hcr first more hsome ih =>
      rw [lines_cons hlf (lineFeed_not_next hcr), hsome] at h
      rcases List.mem_cons.mp h with rfl | h
      · have hfirst : '\n' ∉ first := ih (hsome ▸ List.mem_cons_self)
        simp [Ne.symm hlf, hfirst]
      · exact ih (hsome ▸ List.mem_cons_of_mem _ h)

theorem lines_append_lineFeed {line : List Char} (hlf : '\n' ∉ line)
    (hcr : line.getLast? ≠ some '\r') (rest : List Char) :
    lines (line ++ '\n' :: rest) = line :: lines rest := by
  induction line with
  | nil => rfl
  | cons c line ih =>
      rw [List.mem_cons, not_or] at hlf
      obtain ⟨hc, hline⟩ := hlf
      have hlast : line.getLast? ≠ some '\r' := by
        cases line with
        | nil => simp
        | cons d line => rwa [List.getLast?_cons_cons] at hcr
      rw [List.cons_append, lines_cons (Ne.symm hc), ih hline hlast]
      rintro rfl
      cases line with
      | nil => exact absurd rfl hcr
      | cons d line =>
          intro hd
          exact hline (Option.some.inj hd ▸ List.mem_cons_self)

/-- A text without line feeds is one line. -/
theorem lines_eq_singleton {text : List Char} (hlf : '\n' ∉ text) (hne : text ≠ []) :
    lines text = [text] := by
  induction text with
  | nil => exact absurd rfl hne
  | cons c rest ih =>
      rw [List.mem_cons, not_or] at hlf
      obtain ⟨hc, hrest⟩ := hlf
      have hnext : c = '\r' → rest.head? ≠ some '\n' :=
        fun _ h => hrest (List.mem_of_head? h)
      rw [lines_cons (Ne.symm hc) hnext]
      cases rest with
      | nil => rfl
      | cons d rest => rw [ih hrest (by simp)]

theorem lines_eq_nil {text : List Char} (h : lines text = []) : text = [] := by
  cases text with
  | nil => rfl
  | cons c rest =>
      rw [lines.eq_def] at h
      split at h
      · next heq => cases heq
      · cases h
      · cases h
      · split at h <;> cases h

/-- A line end closes the lines before it. -/
theorem lines_append (front rest : List Char) :
    lines (front ++ '\n' :: rest) = lines (front ++ ['\n']) ++ lines rest := by
  induction front using lines.induct with
  | case1 => rfl
  | case2 front ih | case3 front ih => simp [ih]
  | case4 c front hlf hcr hnone ih =>
      obtain rfl := lines_eq_nil hnone
      by_cases hc : c = '\r'
      · subst hc
        rfl
      · have hone (text : List Char) : lines (c :: '\n' :: text) = [c] :: lines text := by
          rw [lines_cons hlf fun h => absurd h hc]
          rfl
        exact (hone rest).trans (by rw [List.singleton_append, hone []]; rfl)
  | case5 c front hlf hcr line more hsome ih =>
      have hnext (tail : List Char) : c = '\r' → (front ++ tail).head? ≠ some '\n' := by
        intro hc
        cases front with
        | nil => cases hsome
        | cons d front =>
            have hhead : (d :: front).head? ≠ some '\n' := lineFeed_not_next hcr hc
            exact hhead
      rw [List.cons_append, List.cons_append, lines_cons hlf (hnext _), lines_cons hlf (hnext _), ih]
      cases hfirst : lines (front ++ ['\n']) with
      | nil =>
          have := lines_eq_nil hfirst
          simp at this
      | cons first others => rfl

end Text

-- ============================================================================
-- Lines of requests
-- ============================================================================

open Text (trim Trimmed)

/-- The trimmed lines of a request. -/
def Emission.lines (e : Emission) : List (List Char) :=
  e.texts.flatMap fun text => (Text.lines text.toList).map trim

/-- The trimmed lines that an action writes into the open unit. -/
def Action.lines : Action → List (List Char)
  | .code c => c.emission.lines
  | .emission e => e.lines
  | .openUnit _ | .closeUnit | .report _ => []

/-- A trimmed line as it stands in a unit. -/
def indented (line : List Char) : List Char :=
  indent line ++ line

theorem Emission.toList_written (e : Emission) :
    e.written.toList = e.lines.flatMap fun line => indented line ++ ['\n'] := by
  simp only [written, lines, formatText, formatLine, indented, String.toList_join,
    List.flatMap_map, List.flatMap_assoc, String.toList_ofList]

theorem toList_writtenBy (acts : List Action) :
    (writtenBy acts).toList =
      (acts.flatMap Action.lines).flatMap fun line => indented line ++ ['\n'] := by
  rw [writtenBy, String.toList_join, List.flatMap_map, List.flatMap_assoc]
  congr 1
  funext action
  cases action with
  | code c => exact c.emission.toList_written
  | emission e => exact e.toList_written
  | _ => rfl

/-- A line that can stand in a unit. -/
structure Settled (line : List Char) : Prop where
  trimmed : Trimmed line
  oneLine : '\n' ∉ line

theorem Emission.settled_of_mem_lines {e : Emission} {line : List Char} (h : line ∈ e.lines) :
    Settled line := by
  obtain ⟨text, -, hline⟩ := List.mem_flatMap.mp h
  obtain ⟨raw, hraw, rfl⟩ := List.mem_map.mp hline
  exact ⟨Text.trimmed_trim raw, fun h => Text.lineFeed_not_mem hraw (Text.mem_of_mem_trim h)⟩

theorem Action.settled_of_mem_lines {action : Action} {line : List Char}
    (h : line ∈ action.lines) : Settled line := by
  cases action with
  | code c => exact Emission.settled_of_mem_lines h
  | emission e => exact Emission.settled_of_mem_lines h
  | _ => cases h

theorem mem_indent {line : List Char} {c : Char} (h : c ∈ indent line) : c = '\t' := by
  rw [indent] at h
  split at h
  · cases h
  · split at h <;> simpa using h

theorem Settled.trim_indented {line : List Char} (h : Settled line) :
    trim (indented line) = line := by
  have hblank : ∀ c ∈ indent line, Text.isBlank c = true := by
    intro c hc
    rw [mem_indent hc]
    rfl
  rw [trim, indented, Text.trimStart_append hblank, Text.trimStart_eq h.trimmed.head,
    Text.trimEnd_eq h.trimmed.last]

/-- An indented line ends with its line feed. -/
theorem Settled.lines_indented {line : List Char} (h : Settled line) (rest : List Char) :
    Text.lines (indented line ++ '\n' :: rest) = indented line :: Text.lines rest := by
  apply Text.lines_append_lineFeed
  · intro hmem
    rcases List.mem_append.mp hmem with hmem | hmem
    · cases mem_indent hmem
    · exact h.oneLine hmem
  · intro hlast
    rw [indented, List.getLast?_append, Option.or_eq_some_iff] at hlast
    rcases hlast with hlast | ⟨-, hlast⟩
    · cases h.trimmed.last _ hlast
    · cases mem_indent (List.mem_of_getLast? hlast)

theorem lines_settled {ls : List (List Char)} (h : ∀ line ∈ ls, Settled line) :
    (Text.lines (ls.flatMap fun line => indented line ++ ['\n'])).map trim = ls := by
  induction ls with
  | nil => rfl
  | cons line rest ih =>
      obtain ⟨hline, hrest⟩ := List.forall_mem_cons.mp h
      rw [List.flatMap_cons, List.append_assoc, List.singleton_append, hline.lines_indented,
        List.map_cons, hline.trim_indented, ih hrest]

/-- The lines of a unit are those of its requests. -/
theorem lines_writtenBy (acts : List Action) :
    (Text.lines (writtenBy acts).toList).map trim = acts.flatMap Action.lines := by
  rw [toList_writtenBy]
  apply lines_settled
  intro line hline
  obtain ⟨action, -, hline⟩ := List.mem_flatMap.mp hline
  exact action.settled_of_mem_lines hline

end JasminGen
