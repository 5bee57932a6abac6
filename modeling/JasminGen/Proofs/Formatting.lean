/-
  JasminGen.Proofs.Formatting

  Text that is emitted again. Lines are written trimmed and indented by what they are, so
  the text of a unit, emitted once more, is written as it stands. Two texts emitted one
  after the other are written like both with a line end between them: the first of them
  may end in a carriage return, which then becomes part of the line end, but white space at
  the end of a line is dropped anyway.

  Main definition: `Output.emittedFresh`. Main results: `formatText_join`,
  `formatText_append`, `emitting_stable`.
-/

import JasminGen.Proofs.Lines
import Mathlib.Data.List.TakeWhile

namespace JasminGen

namespace Text

-- ============================================================================
-- White space at the end of lines
-- ============================================================================

theorem trimEnd_cons (c : Char) (line : List Char) :
    trimEnd (c :: line) = if trimEnd line = [] then trimEnd [c] else c :: trimEnd line :=
  trimEnd_append [c] line

theorem trimEnd_blanks {blanks : List Char} (h : ∀ c ∈ blanks, isBlank c = true) :
    trimEnd blanks = [] := by
  rw [trimEnd, List.reverse_eq_nil_iff, List.dropWhile_eq_nil_iff]
  intro c hc
  exact h c (List.mem_reverse.mp hc)

/-- A line is what is left of it, and white space. -/
theorem trimEnd_append_blanks (line : List Char) :
    ∃ blanks, (∀ c ∈ blanks, isBlank c = true) ∧ trimEnd line ++ blanks = line := by
  refine ⟨(line.reverse.takeWhile isBlank).reverse, ?_, ?_⟩
  · intro c hc
    exact List.mem_takeWhile_imp (List.mem_reverse.mp hc)
  · rw [trimEnd, ← List.reverse_append, List.takeWhile_append_dropWhile, List.reverse_reverse]

theorem trim_append_blanks {blanks : List Char} (h : ∀ c ∈ blanks, isBlank c = true)
    (line : List Char) : trim (line ++ blanks) = trim line := by
  rw [trim, trim, trimStart, List.dropWhile_append]
  split
  · next hempty =>
      rw [trimStart, List.isEmpty_iff.mp hempty, List.dropWhile_eq_nil_iff.mpr h]
  · rw [trimEnd_append, if_pos (trimEnd_blanks h)]
    rfl

theorem trim_trimEnd (line : List Char) : trim (trimEnd line) = trim line := by
  obtain ⟨blanks, hblanks, hline⟩ := trimEnd_append_blanks line
  rw [← trim_append_blanks hblanks (trimEnd line), hline]

/-- A line end after the last line changes at most white space at the end of that line. -/
theorem map_trimEnd_lines_lineFeed {text : List Char} (hne : text ≠ [])
    (hlast : text.getLast? ≠ some '\n') :
    (lines (text ++ ['\n'])).map trimEnd = (lines text).map trimEnd := by
  induction text using lines.induct with
  | case1 => exact absurd rfl hne
  | case2 rest ih =>
      cases rest with
      | nil => exact absurd rfl hlast
      | cons d rest =>
          rw [List.getLast?_cons_cons] at hlast
          exact congrArg ([] :: ·) (ih (by simp) hlast)
  | case3 rest ih =>
      cases rest with
      | nil => exact absurd rfl hlast
      | cons d rest =>
          rw [List.getLast?_cons_cons, List.getLast?_cons_cons] at hlast
          exact congrArg ([] :: ·) (ih (by simp) hlast)
  | case4 c rest hlf hcr hnone ih =>
      obtain rfl := lines_eq_nil hnone
      by_cases hc : c = '\r'
      · subst hc
        rfl
      · rw [List.singleton_append, lines_cons hlf fun h => absurd h hc,
          lines_cons hlf fun h => absurd h hc]
        rfl
  | case5 c rest hlf hcr first more hsome ih =>
      cases rest with
      | nil => cases hsome
      | cons d rest =>
          rw [List.getLast?_cons_cons] at hlast
          have hrest := ih (by simp) hlast
          have hnext : c = '\r' → (d :: rest).head? ≠ some '\n' := lineFeed_not_next hcr
          have hnext' : c = '\r' → (d :: rest ++ ['\n']).head? ≠ some '\n' := hnext
          rw [List.cons_append, lines_cons hlf hnext', lines_cons hlf hnext, hsome]
          rw [hsome] at hrest
          -- the first of the lines gets one more character in front, on both sides
          cases hfirst : lines (d :: rest ++ ['\n']) with
          | nil =>
              rw [hfirst] at hrest
              cases hrest
          | cons first' more' =>
              rw [hfirst, List.map_cons, List.map_cons, List.cons.injEq] at hrest
              rw [List.map_cons, List.map_cons, trimEnd_cons, trimEnd_cons c first, hrest.1, hrest.2]

theorem map_trim_lines_lineFeed {text : List Char} (hne : text ≠ [])
    (hlast : text.getLast? ≠ some '\n') :
    (lines (text ++ ['\n'])).map trim = (lines text).map trim := by
  have htrim : trim = trim ∘ trimEnd := (funext trim_trimEnd).symm
  rw [htrim, ← List.map_map, map_trimEnd_lines_lineFeed hne hlast, List.map_map]

end Text

-- ============================================================================
-- Formatted texts
-- ============================================================================

open Text (trim)

theorem Emission.lines_text (text : String) :
    (Emission.text text).lines = (Text.lines text.toList).map trim := by
  simp [Emission.lines, Emission.texts]

theorem formatText_eq (text : String) :
    formatText text =
      (Emission.text text).lines.map fun line => String.ofList (indented line ++ ['\n']) := by
  rw [Emission.lines_text, List.map_map]
  rfl

theorem toList_join_formatText (text : String) :
    (String.join (formatText text)).toList =
      (Emission.text text).lines.flatMap fun line => indented line ++ ['\n'] := by
  rw [← Emission.toList_written]
  simp [Emission.written, Emission.texts]

/-- The lines of a formatted text are those of the text. -/
theorem lines_join_formatText (text : String) :
    (Emission.text (String.join (formatText text))).lines = (Emission.text text).lines := by
  rw [Emission.lines_text, toList_join_formatText]
  exact lines_settled fun line hline => Emission.settled_of_mem_lines hline

theorem formatText_join (text : String) :
    formatText (String.join (formatText text)) = formatText text := by
  rw [formatText_eq, lines_join_formatText, ← formatText_eq]

/-- Two texts with a line end between them have the lines of the one and of the other. -/
theorem lines_text_append {first : String} (hne : first ≠ "")
    (hlast : first.toList.getLast? ≠ some '\n') (second : String) :
    (Emission.text (first ++ "\n" ++ second)).lines =
      (Emission.text first).lines ++ (Emission.text second).lines := by
  have hsplit : (first ++ "\n" ++ second).toList = first.toList ++ '\n' :: second.toList := by
    rw [String.toList_append, String.toList_append, List.append_assoc]
    rfl
  have hne' : first.toList ≠ [] := fun h => hne (String.toList_eq_nil_iff.mp h)
  rw [Emission.lines_text, hsplit, Text.lines_append, List.map_append,
    Text.map_trim_lines_lineFeed hne' hlast, Emission.lines_text, Emission.lines_text]

theorem formatText_append {first : String} (hne : first ≠ "")
    (hlast : first.toList.getLast? ≠ some '\n') (second : String) :
    formatText (first ++ "\n" ++ second) = formatText first ++ formatText second := by
  rw [formatText_eq, lines_text_append hne hlast, List.map_append, ← formatText_eq,
    ← formatText_eq]

-- ============================================================================
-- Units
-- ============================================================================

namespace Output

theorem writeLines_memory (writer : String) (lines : List String) (out : Output Memory String) :
    writeLines writer lines out =
      (.ok (), ⟨out.unit, lines.foldl (fun memory line => memory.append writer line) out.sink⟩) := by
  induction lines generalizing out with
  | nil => rfl
  | cons line rest ih =>
      have hline : useSink (Sink.writeAll writer line) out =
          (.ok (), ⟨out.unit, out.sink.append writer line⟩) := rfl
      rw [writeLines, Attempt.bind_ok hline, ih]
      rfl

/-- A text is refused while no unit is open. -/
theorem emitText_closed (text : String) {out : Output Memory String} (h : out.unit = none) :
    emitText text out = (.error .noOpenUnit, out) := by
  obtain ⟨unit, memory⟩ := out
  obtain rfl : unit = none := h
  rfl

theorem emitText_open (text : String) {out : Output Memory String} {u : OpenUnit String}
    (h : out.unit = some u) :
    emitText text out = (.ok (), ⟨out.unit, (formatText text).foldl
      (fun memory line => memory.append u.writer line) out.sink⟩) := by
  obtain ⟨unit, memory⟩ := out
  obtain rfl : unit = some u := h
  have hget : (get : Attempt GenError (Output Memory String) _) ⟨some u, memory⟩ =
      (.ok ⟨some u, memory⟩, ⟨some u, memory⟩) := rfl
  rw [emitText, Attempt.bind_ok hget]
  exact Attempt.bind_ok (writeLines_memory u.writer (formatText text) ⟨some u, memory⟩)

/-- Emit a text into a unit that is created for it: what comes of it, and what the unit holds
    then. -/
def emittedFresh (memory : Memory) (name text : String) : Except GenError Unit × Option String :=
  let run : Attempt GenError (Output Memory String) Unit := do
    openUnit name
    emitText text
  let (result, out) := run ⟨none, memory⟩
  (result, out.sink.unit? name)

theorem emittedFresh_eq (memory : Memory) (name text : String) :
    emittedFresh memory name text = (.ok (), some (String.join (formatText text))) := by
  have hopen : openUnit name (⟨none, memory⟩ : Output Memory String) =
      (.ok (), writing memory name "") := rfl
  rw [emittedFresh, Attempt.bind_ok hopen, emitText_writing, String.empty_append]
  exact congrArg (Prod.mk _) (Memory.unit?_set memory name _)

/-- Texts emitted one after the other are like one text. -/
theorem emitText_emitText {first second text : String}
    (h : formatText text = formatText first ++ formatText second) (out : Output Memory String) :
    (do emitText first; emitText second : Attempt GenError (Output Memory String) Unit) out =
      emitText text out := by
  cases hunit : out.unit with
  | none =>
      rw [emitText_closed text hunit]
      exact Attempt.bind_error (emitText_closed first hunit)
  | some u =>
      rw [Attempt.bind_ok (emitText_open first hunit), emitText_open text hunit, h,
        List.foldl_append]
      exact emitText_open second hunit

end Output

/-- Whatever text is emitted, the unit then holds its lines, trimmed and indented, and the
    text of the unit is written as it stands when it is emitted again. A text that does not
    end its last line, and another text after it, are written like both with a line end
    between them. -/
theorem emitting_stable :
    (∀ (memory : Memory) (name text : String), ∃ unit,
      Output.emittedFresh memory name text = (.ok (), some unit) ∧
      unit.toList = ((Text.lines text.toList).map trim).flatMap
        (fun line => indent line ++ line ++ ['\n']) ∧
      ∀ (memory' : Memory) (name' : String),
        Output.emittedFresh memory' name' unit = (.ok (), some unit)) ∧
    ∀ (first second : String), first ≠ "" → first.toList.getLast? ≠ some '\n' →
      ∀ out : Output Memory String,
        (do Output.emitText first; Output.emitText second :
          Attempt GenError (Output Memory String) Unit) out =
          Output.emitText (first ++ "\n" ++ second) out := by
  refine ⟨?_, ?_⟩
  · intro memory name text
    refine ⟨String.join (formatText text), Output.emittedFresh_eq memory name text, ?_, ?_⟩
    · rw [toList_join_formatText, Emission.lines_text]
      rfl
    · intro memory' name'
      rw [Output.emittedFresh_eq, formatText_join]
  · intro first second hne hlast out
    exact Output.emitText_emitText (formatText_append hne hlast second) out

/-- The first text ends in a carriage return, which becomes part of the line end. -/
theorem emitting_stable_carriageReturn :
    "nop\r\n\u00a0\r\r\n.end \r" ≠ "" ∧
    "nop\r\n\u00a0\r\r\n.end \r".toList.getLast? ≠ some '\n' ∧
    (do Output.emitText "nop\r\n\u00a0\r\r\n.end \r"; Output.emitText "\u2003Label_1:" :
      Attempt GenError (Output Memory String) Unit) (Output.writing .empty "Main" "") =
      Output.emitText ("nop\r\n\u00a0\r\r\n.end \r" ++ "\n" ++ "\u2003Label_1:")
        (Output.writing .empty "Main" "") ∧
    Output.emittedFresh .empty "Main" "nop\r\n\u00a0\r\r\n.end \r" =
      (.ok (), some "\t\tnop\n\n.end\n") := by
  have hne : "nop\r\n\u00a0\r\r\n.end \r" ≠ "" := by decide
  have hlast : "nop\r\n\u00a0\r\r\n.end \r".toList.getLast? ≠ some '\n' := by decide
  refine ⟨hne, hlast, emitting_stable.2 _ _ hne hlast _, ?_⟩
  rw [Output.emittedFresh_eq]
  rfl

end JasminGen
