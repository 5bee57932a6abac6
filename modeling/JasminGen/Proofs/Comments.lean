/-
  JasminGen.Proofs.Comments

  Comments change no code. With debugging on, a run asks for the same as with debugging
  off, and for comments in between. A comment is written into the open unit, every line of
  it starts with a semicolon, and it is refused by no memory. So the run ends in the same
  way, and its units hold the same lines when the comments are left out.

  Main definitions: `uncommented`, `Setting.withComments`. Main result:
  `comments_change_no_code`.
-/

import JasminGen.Proofs.Actions
import JasminGen.Proofs.Lines
import JasminGen.Proofs.Lowering.Units

namespace JasminGen

-- ============================================================================
-- Texts without comments
-- ============================================================================

namespace Text

/-- The lines of a text, each with its line feed. -/
def fullLines : List Char → List (List Char)
  | [] => []
  | c :: rest =>
    if c = '\n' then [c] :: fullLines rest
    else
      match fullLines rest with
      | [] => [[c]]
      | line :: more => (c :: line) :: more

/-- The first character of the line that is not white space is a semicolon. -/
def isComment (line : List Char) : Bool :=
  (trimStart line).head? == some ';'

theorem fullLines_append {line : List Char} (h : '\n' ∉ line) (rest : List Char) :
    fullLines (line ++ '\n' :: rest) = (line ++ ['\n']) :: fullLines rest := by
  induction line with
  | nil => simp [fullLines]
  | cons c line ih =>
      rw [List.mem_cons, not_or] at h
      obtain ⟨hc, hline⟩ := h
      rw [List.cons_append, fullLines, if_neg (Ne.symm hc), ih hline]
      rfl

end Text

/-- A text without its comment lines. -/
def uncommented (text : String) : String :=
  String.ofList ((Text.fullLines text.toList).filter fun line => !Text.isComment line).flatten

theorem Settled.isComment_indented {line : List Char} (h : Settled line) :
    Text.isComment (indented line ++ ['\n']) = (line.head? == some ';') := by
  have hblank : ∀ c ∈ indent line, Text.isBlank c = true := by
    intro c hc
    rw [mem_indent hc]
    rfl
  rw [Text.isComment, indented, List.append_assoc, Text.trimStart_append hblank]
  cases line with
  | nil => rfl
  | cons c rest =>
      rw [Text.trimStart_eq]
      · rfl
      · intro d hd
        exact h.trimmed.head d hd

theorem Settled.fullLines_indented {line : List Char} (h : Settled line) (rest : List Char) :
    Text.fullLines (indented line ++ '\n' :: rest) =
      (indented line ++ ['\n']) :: Text.fullLines rest := by
  apply Text.fullLines_append
  intro hmem
  rcases List.mem_append.mp hmem with hmem | hmem
  · cases mem_indent hmem
  · exact h.oneLine hmem

/-- The comment lines of a text are left out one by one. -/
theorem filter_fullLines {ls : List (List Char)} (h : ∀ line ∈ ls, Settled line) :
    ((Text.fullLines (ls.flatMap fun line => indented line ++ ['\n'])).filter
        fun line => !Text.isComment line).flatten =
      (ls.filter fun line => line.head? != some ';').flatMap fun line => indented line ++ ['\n'] := by
  induction ls with
  | nil => rfl
  | cons line rest ih =>
      obtain ⟨hline, hrest⟩ := List.forall_mem_cons.mp h
      have hsplit := hline.fullLines_indented (rest.flatMap fun line => indented line ++ ['\n'])
      rw [List.flatMap_cons, List.append_assoc, List.singleton_append, hsplit, List.filter_cons,
        List.filter_cons, hline.isComment_indented]
      cases hhead : line.head? == some ';' with
      | true =>
          rw [bne, hhead]
          exact ih hrest
      | false =>
          rw [bne, hhead, Bool.not_false, if_pos rfl, if_pos rfl, List.flatten_cons,
            List.flatMap_cons, ih hrest]

theorem toList_uncommented (acts : List Action) :
    (uncommented (writtenBy acts)).toList =
      ((acts.flatMap Action.lines).filter fun line => line.head? != some ';').flatMap
        fun line => indented line ++ ['\n'] := by
  rw [uncommented, String.toList_ofList, toList_writtenBy]
  apply filter_fullLines
  intro line hline
  obtain ⟨action, -, hline⟩ := List.mem_flatMap.mp hline
  exact action.settled_of_mem_lines hline

-- ============================================================================
-- Comments
-- ============================================================================

def Action.isComment : Action → Bool
  | .emission (.comment _) => true
  | _ => false

theorem Text.head?_trim_semicolon (line : List Char) : (trim (';' :: line)).head? = some ';' := by
  have hstart : trimStart (';' :: line) = [';'] ++ line := trimStart_eq (by simp; rfl)
  rw [trim, hstart, trimEnd_append]
  split
  · rfl
  · rfl

/-- Every line of a comment starts with a semicolon. -/
theorem Action.head?_of_mem_lines {action : Action} (h : action.isComment = true)
    {line : List Char} (hline : line ∈ action.lines) : line.head? = some ';' := by
  unfold isComment at h
  split at h
  · next t =>
      obtain ⟨text, htext, hline⟩ := List.mem_flatMap.mp hline
      obtain ⟨raw, hraw, rfl⟩ := List.mem_map.mp htext
      have htoList : ("; " ++ String.ofList raw).toList = ';' :: ' ' :: raw := by simp
      have hlf : '\n' ∉ ';' :: ' ' :: raw := by
        simpa using Text.lineFeed_not_mem hraw
      rw [htoList, Text.lines_eq_singleton hlf (by simp)] at hline
      obtain rfl := List.mem_singleton.mp hline
      exact Text.head?_trim_semicolon _
  · cases h

theorem filter_lines_comments (acts : List Action) :
    ((acts.filter fun action => !action.isComment).flatMap Action.lines).filter
        (fun line => line.head? != some ';') =
      (acts.flatMap Action.lines).filter fun line => line.head? != some ';' := by
  induction acts with
  | nil => rfl
  | cons action rest ih =>
      rw [List.flatMap_cons, List.filter_append, List.filter_cons]
      cases hcomment : action.isComment with
      | false =>
          rw [Bool.not_false, if_pos rfl, List.flatMap_cons, List.filter_append, ih]
      | true =>
          have hnone : (action.lines.filter fun line => line.head? != some ';') = [] := by
            rw [List.filter_eq_nil_iff]
            intro line hline
            simp [Action.head?_of_mem_lines hcomment hline]
          rw [hnone, List.nil_append]
          exact ih

/-- What is written without comments is what is written, without comments. -/
theorem uncommented_filter (acts : List Action) :
    uncommented (writtenBy (acts.filter fun action => !action.isComment)) =
      uncommented (writtenBy acts) := by
  apply String.toList_injective
  rw [toList_uncommented, toList_uncommented, filter_lines_comments]

-- ============================================================================
-- Runs into memory
-- ============================================================================

/-- The units of a memory without their comments. -/
def Memory.uncommented (memory : Memory) : List (String × String) :=
  memory.units.map fun unit => (unit.1, JasminGen.uncommented unit.2)

theorem Memory.uncommented_set (memory : Memory) (name text : String) :
    (memory.set name text).uncommented =
      alterIn name (fun _ => JasminGen.uncommented text) memory.uncommented := by
  obtain ⟨units⟩ := memory
  rw [set, uncommented, uncommented]
  induction units with
  | nil => rfl
  | cons unit rest ih =>
      obtain ⟨other, old⟩ := unit
      by_cases hlt : name < other
      · simp [alterIn, hlt]
      · by_cases heq : name = other
        · subst heq
          simp [alterIn_self]
        · simpa [alterIn, hlt, heq] using ih

namespace Output

/-- Outputs of two runs of which only the first has comments, with a unit open or not. -/
inductive Alike : Bool → Output Memory String → Output Memory String → Prop where
  | idle {memory memory' : Memory} : memory.uncommented = memory'.uncommented →
      Alike false ⟨none, memory⟩ ⟨none, memory'⟩
  | writing {memory memory' : Memory} (name : String) (acts : List Action) :
      memory.uncommented = memory'.uncommented →
      Alike true (writing memory name (writtenBy acts))
        (writing memory' name (writtenBy (acts.filter fun action => !action.isComment)))

theorem Alike.uncommented_eq {opened : Bool} {out out' : Output Memory String}
    (h : Alike opened out out') : out.sink.uncommented = out'.sink.uncommented := by
  cases h with
  | idle h => exact h
  | writing name acts h =>
      rw [Output.writing, Output.writing, Memory.uncommented_set, Memory.uncommented_set,
        uncommented_filter, h]

/-- An action that writes adds its text to the open unit. -/
theorem act_writing {action : Action} (h : action.opened? true = some true) (memory : Memory)
    (name : String) (acts : List Action) :
    act action (writing memory name (writtenBy acts)) =
      (.ok (), writing memory name (writtenBy (acts ++ [action]))) := by
  have hwritten : writtenBy (acts ++ [action]) = writtenBy acts ++ action.written := by
    rw [writtenBy_append]
    simp [writtenBy]
  rw [hwritten]
  cases action with
  | openUnit name => cases h
  | closeUnit => cases h
  | code c => exact emitTexts_writing c.emission.texts
  | emission e => exact emitTexts_writing e.texts
  | report line =>
      rw [Action.written, String.append_empty]
      rfl

/-- A comment is written by the first run alone, anything else by both. -/
theorem act_alike {action : Action} {opened opened' : Bool} {out out' : Output Memory String}
    (h : Alike opened out out') (hopened : action.opened? opened = some opened') :
    ∃ out₁, act action out = (.ok (), out₁) ∧
      ((action.isComment = true ∧ Alike opened' out₁ out') ∨
        (action.isComment = false ∧
          ∃ out₁', act action out' = (.ok (), out₁') ∧ Alike opened' out₁ out₁')) := by
  cases h with
  | @idle memory memory' h =>
      cases action with
      | openUnit name =>
          cases hopened
          exact ⟨_, rfl, .inr ⟨rfl, _, rfl, .writing name [] h⟩⟩
      | report line =>
          cases hopened
          exact ⟨_, rfl, .inr ⟨rfl, _, rfl, .idle h⟩⟩
      | _ => cases hopened
  | @writing memory memory' name acts h =>
      by_cases hclose : action = .closeUnit
      · subst hclose
        cases hopened
        exact ⟨_, rfl, .inr ⟨rfl, _, rfl, .idle (Alike.writing name acts h).uncommented_eq⟩⟩
      · obtain rfl : opened' = true := by
          cases action <;> simp_all [Action.opened?]
        refine ⟨_, act_writing hopened memory name acts, ?_⟩
        have hmore := Alike.writing name (acts ++ [action]) h
        rw [List.filter_append] at hmore
        cases hcomment : action.isComment with
        | true =>
            rw [List.filter_singleton, hcomment, Bool.not_true, cond_false,
              List.append_nil] at hmore
            exact .inl ⟨rfl, hmore⟩
        | false =>
            rw [List.filter_singleton, hcomment, Bool.not_false, cond_true] at hmore
            exact .inr ⟨rfl, _, act_writing hopened memory' name _, hmore⟩

theorem actAll_alike (acts : List Action) {opened opened' : Bool}
    {out out' : Output Memory String} (h : Alike opened out out')
    (hopened : openedAfter acts opened = some opened') :
    ∃ last last', actAll acts out = (.ok (), last) ∧
      actAll (acts.filter fun action => !action.isComment) out' = (.ok (), last') ∧
      Alike opened' last last' := by
  induction acts generalizing opened out out' with
  | nil =>
      cases hopened
      exact ⟨out, out', rfl, rfl, h⟩
  | cons action rest ih =>
      rw [openedAfter, Option.bind_eq_some_iff] at hopened
      obtain ⟨opened₁, hopened₁, hrest⟩ := hopened
      obtain ⟨out₁, hact, ⟨hcomment, h₁⟩ | ⟨hcomment, out₁', hact', h₁⟩⟩ := act_alike h hopened₁
      · rw [actAll_cons_ok hact, List.filter_cons, hcomment]
        exact ih h₁ hrest
      · rw [actAll_cons_ok hact, List.filter_cons, hcomment, Bool.not_false, if_pos rfl,
          actAll_cons_ok hact']
        exact ih h₁ hrest

end Output

-- ============================================================================
-- With and without comments
-- ============================================================================

/-- The same setting, with comments or without. -/
def Setting.withComments (S : Setting) (debug : Bool) : Setting :=
  ⟨S.symbols, S.oracle, ⟨debug, S.options.verbose, S.options.colored, S.options.strip⟩⟩

/-- An error of one run is the same error of the other. -/
theorem Failure.error_eq (reason : GenError) : Failure.error reason = .error reason := rfl

/-- A run with comments goes along with one without: frames, results and failures are the
    same, and so is what they ask for, apart from the comments. -/
def commentCoupling (S : Setting) : ProgramCoupling where
  left := S.withComments true
  right := S.withComments false
  relabel := id
  Meet f f' := f' = f
  Outside f f' := f' = f
  Inside f f' := f' = f ∧ f.entered ≠ []
  InMethod f f' := f' = f ∧ f.entered ≠ []
  Asks rs rs' := rs' = rs.filter fun r => !r.action.isComment
  Fails := Eq
  verbose_eq := rfl
  colored_eq := rfl
  strip_eq := rfl
  function?_eq _ := rfl
  struct?_eq _ := rfl
  scope_agree := by
    rintro f f' ⟨rfl, -⟩
    exact .refl (fun _ => rfl) _
  oracle_agree := by
    rintro f f' ⟨rfl, -⟩ e
    exact .refl (fun _ => rfl) _
  meet h := h.1
  slots_eq h := congrArg Frame.slots h.1
  extended := by
    rintro f f' ⟨rfl, hentered⟩ slots -
    exact ⟨rfl, hentered⟩
  label_eq h := congrArg Frame.nextLabel h.1
  labelled := by
    rintro f f' ⟨rfl, hentered⟩
    exact ⟨rfl, hentered⟩
  asks_nil := rfl
  asks_append := by
    rintro rs _ more _ rfl rfl
    rw [List.filter_append]
  asks_code := by
    rintro f f' rfl c
    rw [Code.relabel_id]
    rfl
  asks_comment := by
    rintro f f' ⟨rfl, -⟩ s
    have hplain : (s.comment (S.withComments false) f').requests = [] := by
      rcases s.comment_run (S.withComments false) f' with hnone | ⟨hdebug, -⟩
      · rw [hnone, Dialogue.requests_done]
      · cases hdebug
    rw [hplain]
    rcases s.comment_run (S.withComments true) f' with hnone | ⟨-, t, hcomment⟩
    · rw [hnone]
      rfl
    · rw [hcomment]
      rfl
  fails_error := Failure.error_eq
  fails_exhausted := rfl
  meet_outside h := h
  meet_inside h := h.1
  enter := by
    rintro f f' rfl kind name
    change (S.symbols.childScope? kind name = none ∧ S.symbols.childScope? kind name = none) ∨ _
    cases hid : S.symbols.childScope? kind name with
    | none => exact .inl ⟨rfl, rfl⟩
    | some id => exact .inr ⟨id, id, hid, hid, rfl, by simp⟩
  scope_inside := by
    rintro f f' ⟨rfl, -⟩
    exact .refl (fun _ => rfl) _
  begin := by
    rintro f f' ⟨rfl, hentered⟩ params slots -
    exact ⟨rfl, hentered⟩
  leave := by
    rintro f f' ⟨rfl, hentered⟩
    obtain ⟨id, outer, houter⟩ := List.exists_cons_of_ne_nil hentered
    exact ⟨id, id, outer, outer, houter, houter, rfl⟩
  asks_open := by
    rintro f f' rfl name
    rfl
  asks_close := by
    rintro f f' rfl
    rfl
  asks_report := by
    rintro f f' rfl line
    rfl

/-- Comments change no code. For every program and every setting, a run into memory ends
    with the same result with comments and without. It writes the same units, and they are
    equal when the comment lines of both are left out. -/
theorem comments_change_no_code (setting : Setting) (program : Program) (memory : Memory) :
    let shown := generate (setting.withComments true) program memory
    let plain := generate (setting.withComments false) program memory
    shown.1 = plain.1 ∧ shown.2.output.sink.uncommented = plain.2.output.sink.uncommented := by
  intro shown plain
  obtain ⟨hasks, hends⟩ :=
    (commentCoupling setting).program_lower program .initial .initial rfl
  have hresult : (program.lower (setting.withComments true) .initial).result =
      (program.lower (setting.withComments false) .initial).result := by
    rcases hends with ⟨_, _, hok, hok', -, -⟩ | ⟨failure, _, herror, herror', rfl, -⟩
    · exact hok.trans hok'.symm
    · exact herror.trans herror'.symm
  have hacts : (program.lower (setting.withComments false) .initial).requests.map Request.action =
      ((program.lower (setting.withComments true) .initial).requests.map Request.action).filter
        fun action => !action.isComment := by
    rw [List.filter_map]
    exact congrArg (List.map Request.action) hasks
  obtain ⟨opened, hopened, -⟩ := program.lower_orderly (setting.withComments true) .initial
  have hidle : Output.Alike false ⟨none, memory⟩ ⟨none, memory⟩ := .idle rfl
  obtain ⟨last, last', hlast, hlast', halike⟩ := Output.actAll_alike _ hidle hopened
  rw [← hacts] at hlast'
  obtain ⟨hshown, hshown_result⟩ :=
    Session.run_output_ok (s := Session.start memory) program.propagates_lower hlast
  obtain ⟨hplain, hplain_result⟩ :=
    Session.run_output_ok (s := Session.start memory) program.propagates_lower hlast'
  refine ⟨hshown_result.trans (hresult.trans hplain_result.symm), ?_⟩
  calc shown.2.output.sink.uncommented
    _ = last.sink.uncommented := congrArg (fun out => out.sink.uncommented) hshown
    _ = last'.sink.uncommented := halike.uncommented_eq
    _ = plain.2.output.sink.uncommented :=
      (congrArg (fun out => out.sink.uncommented) hplain).symm

end JasminGen
