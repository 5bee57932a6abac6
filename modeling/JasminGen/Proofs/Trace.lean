/-
  JasminGen.Proofs.Trace

  The calls that a run makes to a sink that refuses nothing. Lines are written one by one,
  each behind the indentation of its kind, and whatever has been written is flushed before
  anything else happens, also where the run fails in between. A run that succeeds makes the
  calls for one unit after the other.

  Every action makes a tidy sequence of calls (`Output.act_tidy`), so a run does
  (`Output.actAll_tidy`). That units do not mix is the order of the units in what is asked
  for (`Program.lower_units`), carried over to the calls (`UnitsIn.segments`).

  Main definitions: `IsUnitLine`, `BlocksFlushed`, `Segments`. Main result: `trace_of_run`.
-/

import JasminGen.Compile
import JasminGen.Proofs.FailStop
import JasminGen.Proofs.Lines
import JasminGen.Proofs.UnitTexts

namespace JasminGen

open Text (isBlank Trimmed trim)

-- ============================================================================
-- Lines of a unit
-- ============================================================================

/-- A label declaration: a colon at the end, no white space, and no comment. -/
structure IsLabelLine (t : List Char) : Prop where
  colon : t.getLast? = some ':'
  solid : ∀ c ∈ t, isBlank c = false
  code : t.head? ≠ some ';'

/-- The line `t` can stand in a unit behind `margin`. -/
structure LaidOut (margin t : List Char) : Prop where
  oneLine : '\n' ∉ t
  trimmed : Trimmed t
  atMargin : t = [] ∨ t.head? = some '.' → margin = []
  label : t ≠ [] → t.head? ≠ some '.' → IsLabelLine t → margin = ['\t']
  other : t ≠ [] → t.head? ≠ some '.' → ¬ IsLabelLine t → margin = ['\t', '\t']

/-- The text is one line of a unit, with its line end. -/
def IsUnitLine (text : String) : Prop :=
  ∃ margin t, text.toList = margin ++ t ++ ['\n'] ∧ LaidOut margin t

theorem declaresLabel_iff (t : List Char) : declaresLabel t = true ↔ IsLabelLine t := by
  have hiff : declaresLabel t = true ↔
      t.head? ≠ some ';' ∧ t.getLast? = some ':' ∧ ∀ c ∈ t, isBlank c = false := by
    simp [declaresLabel, and_assoc]
  rw [hiff]
  exact ⟨fun ⟨hcode, hcolon, hsolid⟩ => ⟨hcolon, hsolid, hcode⟩,
    fun h => ⟨h.code, h.colon, h.solid⟩⟩

/-- A line without line feed is laid out behind its indentation. -/
theorem laidOut_trim {line : List Char} (h : '\n' ∉ line) :
    LaidOut (indent (trim line)) (trim line) := by
  have hkind : ∀ t : List Char, t ≠ [] → t.head? ≠ some '.' →
      indent t = if declaresLabel t then ['\t'] else ['\t', '\t'] := by
    intro t hne hdot
    have hmargin : (t.isEmpty || t.head? == some '.') = false := by simp [hne, hdot]
    rw [indent, hmargin, if_neg Bool.false_ne_true]
  refine ⟨fun hmem => h (Text.mem_of_mem_trim hmem), Text.trimmed_trim line, ?_, ?_, ?_⟩
  · intro hmargin
    have hempty : ((trim line).isEmpty || (trim line).head? == some '.') = true := by
      simpa using hmargin
    rw [indent, if_pos hempty]
  · intro hne hdot hlabel
    rw [hkind _ hne hdot, if_pos ((declaresLabel_iff _).mpr hlabel)]
  · intro hne hdot hlabel
    rw [hkind _ hne hdot, if_neg (mt (declaresLabel_iff _).mp hlabel)]

/-- What a text is formatted to are lines of a unit, whatever it holds. -/
theorem isUnitLine_of_mem {text line : String} (h : line ∈ formatText text) :
    IsUnitLine line := by
  rw [formatText, List.mem_map] at h
  obtain ⟨chars, hchars, rfl⟩ := h
  exact ⟨_, _, String.toList_ofList, laidOut_trim (Text.lineFeed_not_mem hchars)⟩

-- ============================================================================
-- Sequences of calls
-- ============================================================================

section Calls

variable {ω : Type}

def Call.IsWrite (c : Call ω) : Prop :=
  ∃ w line, c = .write w line

/-- The call writes through `w` or flushes `w`. -/
def Call.By (w : ω) (c : Call ω) : Prop :=
  (∃ line, c = .write w line) ∨ c = .flush w

/-- Wherever a block of writes ends, a flush follows at once, and it flushes what the whole
    block was written through. -/
def BlocksFlushed (calls : List (Call ω)) : Prop :=
  ∀ before block after, calls = before ++ (block ++ after) → block ≠ [] →
    (∀ c ∈ block, c.IsWrite) → (∀ c, after.head? = some c → ¬ c.IsWrite) →
    ∃ w, after.head? = some (.flush w) ∧ ∀ c ∈ block, ∃ line, c = .write w line

/-- Every write is one line, and the call after it writes through the same writer or flushes
    it. In particular there is a call after it. -/
def TidyCalls (calls : List (Call ω)) : Prop :=
  ∀ before w line after, calls = before ++ .write w line :: after →
    IsUnitLine line ∧ ∃ c, after.head? = some c ∧ c.By w

/-- What a text is written by: its lines one by one, and a flush. -/
def textCalls (w : ω) (text : String) : List (Call ω) :=
  (formatText text).map (.write w) ++ [.flush w]

namespace TidyCalls

variable {calls calls' : List (Call ω)}

theorem nil : TidyCalls ([] : List (Call ω)) := by
  intro before w line after h
  simp at h

theorem append (h : TidyCalls calls) (h' : TidyCalls calls') : TidyCalls (calls ++ calls') := by
  intro before w line after hsplit
  rcases List.append_eq_append_iff.mp hsplit with ⟨between, -, hlater⟩ | ⟨between, hcalls, hrest⟩
  · exact h' between w line after hlater
  · cases between with
    | nil => exact h' [] w line after hrest.symm
    | cons d between =>
        rw [List.cons_append] at hrest
        obtain ⟨rfl, rfl⟩ := List.cons.inj hrest
        obtain ⟨hline, c, hc, hby⟩ := h before w line between hcalls
        have hhead : (between ++ calls').head? = some c := by
          rw [List.head?_append, hc]
          rfl
        exact ⟨hline, c, hhead, hby⟩

theorem of_not_isWrite {c : Call ω} (h : ¬ c.IsWrite) : TidyCalls [c] := by
  intro before w line after hsplit
  have hmem : Call.write w line ∈ [c] := hsplit ▸ List.mem_append_right _ List.mem_cons_self
  exact absurd ⟨w, line, (List.mem_singleton.mp hmem).symm⟩ h

theorem create (name : String) : TidyCalls [(.create name : Call ω)] :=
  of_not_isWrite (by simp [Call.IsWrite])

theorem flush (w : ω) : TidyCalls [.flush w] :=
  of_not_isWrite (by simp [Call.IsWrite])

/-- A write can stand before calls that go on with the same writer. -/
theorem cons_write {w : ω} {line : String} {c : Call ω} (hline : IsUnitLine line)
    (hhead : calls.head? = some c) (hby : c.By w) (h : TidyCalls calls) :
    TidyCalls (.write w line :: calls) := by
  intro before w' line' after hsplit
  cases before with
  | nil =>
      obtain ⟨hwrite, rfl⟩ := List.cons.inj hsplit
      obtain ⟨rfl, rfl⟩ := Call.write.inj hwrite
      exact ⟨hline, c, hhead, hby⟩
  | cons d before =>
      obtain ⟨-, hrest⟩ := List.cons.inj hsplit
      exact h before w' line' after hrest

theorem lines (w : ω) {lines : List String} (h : ∀ line ∈ lines, IsUnitLine line) :
    TidyCalls (lines.map (.write w) ++ [.flush w]) := by
  induction lines with
  | nil => exact flush w
  | cons line rest ih =>
      obtain ⟨hline, hrest⟩ := List.forall_mem_cons.mp h
      -- the call after the line writes the next line, or it is the flush
      have hnext : ∃ c, (rest.map (Call.write w) ++ [Call.flush w]).head? = some c ∧ c.By w := by
        cases rest with
        | nil => exact ⟨.flush w, rfl, .inr rfl⟩
        | cons next more => exact ⟨.write w next, rfl, .inl ⟨next, rfl⟩⟩
      obtain ⟨c, hc, hby⟩ := hnext
      exact cons_write hline hc hby (ih hrest)

theorem text (w : ω) (text : String) : TidyCalls (textCalls w text) :=
  lines w fun _ => isUnitLine_of_mem

theorem texts (w : ω) (texts : List String) : TidyCalls (texts.flatMap (textCalls w)) := by
  induction texts with
  | nil => exact nil
  | cons t rest ih =>
      rw [List.flatMap_cons]
      exact (text w t).append ih

theorem isUnitLine {w : ω} {line : String} (h : TidyCalls calls) (hmem : .write w line ∈ calls) :
    IsUnitLine line := by
  obtain ⟨before, after, hsplit⟩ := List.append_of_mem hmem
  exact (h before w line after hsplit).1

/-- From one call to the next no write is left without its flush, so no block is. -/
theorem blocksFlushed (h : TidyCalls calls) : BlocksFlushed calls := by
  intro before block
  induction block generalizing before with
  | nil =>
      intro after _ hne
      exact absurd rfl hne
  | cons c block ih =>
      intro after hsplit _ hwrites hend
      obtain ⟨⟨w, line, rfl⟩, hblock⟩ := List.forall_mem_cons.mp hwrites
      obtain ⟨-, d, hd, hby⟩ := h before w line (block ++ after) hsplit
      cases block with
      | nil =>
          -- the block ends here, and what comes next is no write
          rcases hby with ⟨next, rfl⟩ | rfl
          · exact absurd ⟨w, next, rfl⟩ (hend _ hd)
          · exact ⟨w, hd, by simp⟩
      | cons e block =>
          have hsplit' : calls = before ++ [.write w line] ++ (e :: block ++ after) := by
            rw [hsplit]
            simp
          obtain ⟨w', hflush, hall⟩ := ih _ after hsplit' (by simp) hblock hend
          obtain rfl : d = e := (Option.some.inj hd).symm
          obtain ⟨next, rfl⟩ := hall d List.mem_cons_self
          have hsame : w' = w := by
            rcases hby with ⟨more, hmore⟩ | hmore
            · exact (Call.write.inj hmore).1
            · cases hmore
          subst hsame
          exact ⟨w', hflush, List.forall_mem_cons.mpr ⟨⟨line, rfl⟩, hall⟩⟩

end TidyCalls

theorem by_textCalls {w : ω} {text : String} {c : Call ω} (h : c ∈ textCalls w text) : c.By w := by
  rw [textCalls, List.mem_append, List.mem_map, List.mem_singleton] at h
  rcases h with ⟨line, -, rfl⟩ | rfl
  · exact .inl ⟨line, rfl⟩
  · exact .inr rfl

end Calls

-- ============================================================================
-- Reliable sinks
-- ============================================================================

/-- A sink that refuses no call that a run makes. -/
structure Reliable (σ : Type) {ω : Type} [Sink σ ω] : Prop where
  createUnit : ∀ (name : String) (sink : σ), ∃ w sink', Sink.createUnit name sink = (.ok w, sink')
  write : ∀ (w : ω) (line : String) (sink : σ), ∃ sink', Sink.write w line sink = (.ok (), sink')
  flush : ∀ (w : ω) (sink : σ), ∃ sink', Sink.flush w sink = (.ok (), sink')

/-- `Segments σ names calls`: the calls are made for the units `names` in this order. Each
    unit is created, then written to through the writer that the sink gives for it, and
    flushed once more at the end, after all that was written to it has been flushed. -/
inductive Segments (σ : Type) {ω : Type} [Sink σ ω] : List String → List (Call ω) → Prop where
  | nil : Segments σ [] []
  | unit {name : String} {names : List String} {w : ω} {inside rest : List (Call ω)}
      {sink sink' : σ} :
      Sink.createUnit name sink = (.ok w, sink') → (∀ c ∈ inside, c.By w) →
      BlocksFlushed inside → Segments σ names rest →
      Segments σ (name :: names) (.create name :: (inside ++ .flush w :: rest))

section Runs

variable {σ ω : Type}

/-- An output whose sink is watched and has got the calls `calls`. -/
def Output.recorded (unit : Option (OpenUnit ω)) (sink : σ) (calls : List (Call ω)) :
    Output (Watched σ ω) ω :=
  ⟨unit, ⟨sink, calls, none⟩⟩

/-- Whether the computation fails or not, the calls it makes are tidy. -/
def MakesTidyCalls (use : Attempt GenError (Output (Watched σ ω) ω) Unit) : Prop :=
  ∀ unit sink calls, ∃ result unit' sink' made,
    use (.recorded unit sink calls) = (result, .recorded unit' sink' (calls ++ made)) ∧
      TidyCalls made

namespace Output

variable {unit : Option (OpenUnit ω)} {sink : σ} {calls : List (Call ω)}

/-- A call that succeeds is recorded. -/
theorem useSink_call {α : Type} {use : Attempt OutputError σ α} {a : α} {sink' : σ} (c : Call ω)
    (h : use sink = (.ok a, sink')) :
    useSink (Watched.call c use) (recorded unit sink calls) =
      (.ok a, recorded unit sink' (calls ++ [c])) := by
  have hcall : Watched.call c use (⟨sink, calls, none⟩ : Watched σ ω) =
      (.ok a, ⟨sink', calls ++ [c], none⟩) := by
    rw [Watched.call_made (Watched.nextFailure?_none rfl), h]
  rw [useSink_eq, recorded, hcall]
  rfl

theorem useSink_write [Sink σ ω] {w : ω} {line : String} {sink' : σ}
    (h : Sink.write w line sink = (.ok (), sink')) :
    useSink (Sink.writeAll w line) (recorded unit sink calls) =
      (.ok (), recorded unit sink' (calls ++ [.write w line])) := by
  have hne : (Sink.write w line sink).1 ≠ .error .interrupted := by
    rw [h]
    exact nofun
  have hcall := Watched.writeAll_spared hne (Watched.spares_none calls.length (0 + 1))
  rw [h] at hcall
  rw [useSink_eq, recorded, hcall]
  rfl

theorem get_recorded :
    (get : Attempt GenError (Output (Watched σ ω) ω) _) (recorded unit sink calls) =
      (.ok (recorded unit sink calls), recorded unit sink calls) := rfl

/-- A computation that changes nothing makes no call. -/
theorem tidy_unchanged {use : Attempt GenError (Output (Watched σ ω) ω) Unit}
    {result : Except GenError Unit}
    (h : use (recorded unit sink calls) = (result, recorded unit sink calls)) :
    ∃ result unit' sink' made, use (recorded unit sink calls) =
      (result, recorded unit' sink' (calls ++ made)) ∧ TidyCalls made :=
  ⟨result, unit, sink, [], by rw [h, List.append_nil], .nil⟩

variable [Sink σ ω]

theorem openUnit_opened (u : OpenUnit ω) (name : String) :
    openUnit name (recorded (some u) sink calls) =
      (.error (.unitAlreadyOpen u.name name), recorded (some u) sink calls) := by
  rw [openUnit, Attempt.bind_ok get_recorded]
  rfl

theorem closeUnit_idle :
    closeUnit (recorded (none : Option (OpenUnit ω)) sink calls) =
      (.error .noOpenUnit, recorded none sink calls) := by
  rw [closeUnit, Attempt.bind_ok get_recorded]
  rfl

/-- Without an open unit nothing is written. -/
theorem emitTexts_idle (texts : List String) (sink : σ) (calls : List (Call ω)) :
    ∃ result, emitTexts texts (recorded (none : Option (OpenUnit ω)) sink calls) =
      (result, recorded none sink calls) := by
  cases texts with
  | nil => exact ⟨_, rfl⟩
  | cons text rest =>
      have hemit : emitText text (recorded (none : Option (OpenUnit ω)) sink calls) =
          (.error .noOpenUnit, recorded none sink calls) := by
        rw [emitText, Attempt.bind_ok get_recorded]
        rfl
      exact ⟨_, Attempt.bind_error hemit⟩

variable (hsink : Reliable σ)
include hsink

theorem openUnit_idle (name : String) (sink : σ) (calls : List (Call ω)) :
    ∃ w sink', Sink.createUnit name sink = (.ok w, sink') ∧
      openUnit name (recorded none sink calls) =
        (.ok (), recorded (some ⟨name, w⟩) sink' (calls ++ [.create name])) := by
  obtain ⟨w, sink', hcreate⟩ := hsink.createUnit name sink
  refine ⟨w, sink', hcreate, ?_⟩
  have hcall : createUnit name (recorded none sink calls) =
      (.ok w, recorded none sink' (calls ++ [.create name])) := useSink_call _ hcreate
  rw [openUnit, Attempt.bind_ok get_recorded]
  exact Attempt.bind_ok hcall

theorem closeUnit_opened (u : OpenUnit ω) (sink : σ) (calls : List (Call ω)) :
    ∃ sink', closeUnit (recorded (some u) sink calls) =
      (.ok (), recorded none sink' (calls ++ [.flush u.writer])) := by
  obtain ⟨sink', hflush⟩ := hsink.flush u.writer sink
  refine ⟨sink', ?_⟩
  rw [closeUnit, Attempt.bind_ok get_recorded]
  exact useSink_call _ hflush

theorem writeLines_recorded (unit : Option (OpenUnit ω)) (w : ω) (lines : List String) (sink : σ)
    (calls : List (Call ω)) :
    ∃ sink', writeLines w lines (recorded unit sink calls) =
      (.ok (), recorded unit sink' (calls ++ lines.map (.write w))) := by
  induction lines generalizing sink calls with
  | nil => exact ⟨sink, by rw [List.map_nil, List.append_nil]; rfl⟩
  | cons line rest ih =>
      obtain ⟨sink₁, hwrite⟩ := hsink.write w line sink
      obtain ⟨sink', hrest⟩ := ih sink₁ (calls ++ [.write w line])
      have hcall : useSink (Sink.writeAll w line) (recorded unit sink calls) =
          (.ok (), recorded unit sink₁ (calls ++ [.write w line])) := useSink_write hwrite
      refine ⟨sink', ?_⟩
      rw [writeLines, Attempt.bind_ok hcall, hrest]
      simp

theorem emitText_recorded (u : OpenUnit ω) (text : String) (sink : σ) (calls : List (Call ω)) :
    ∃ sink', emitText text (recorded (some u) sink calls) =
      (.ok (), recorded (some u) sink' (calls ++ textCalls u.writer text)) := by
  obtain ⟨sink₁, hlines⟩ :=
    writeLines_recorded hsink (some u) u.writer (formatText text) sink calls
  obtain ⟨sink', hflush⟩ := hsink.flush u.writer sink₁
  refine ⟨sink', ?_⟩
  rw [emitText, Attempt.bind_ok get_recorded]
  refine (Attempt.bind_ok hlines).trans ((useSink_call (.flush u.writer) hflush).trans ?_)
  rw [textCalls, List.append_assoc]

theorem emitTexts_recorded (u : OpenUnit ω) (texts : List String) (sink : σ)
    (calls : List (Call ω)) :
    ∃ sink', emitTexts texts (recorded (some u) sink calls) =
      (.ok (), recorded (some u) sink' (calls ++ texts.flatMap (textCalls u.writer))) := by
  induction texts generalizing sink calls with
  | nil => exact ⟨sink, by rw [List.flatMap_nil, List.append_nil]; rfl⟩
  | cons text rest ih =>
      obtain ⟨sink₁, htext⟩ := emitText_recorded hsink u text sink calls
      obtain ⟨sink', hrest⟩ := ih sink₁ (calls ++ textCalls u.writer text)
      refine ⟨sink', ?_⟩
      rw [emitTexts, Attempt.bind_ok htext, hrest]
      simp

-- ============================================================================
-- Runs
-- ============================================================================

theorem emitTexts_tidy (texts : List String) :
    MakesTidyCalls (emitTexts texts : Attempt GenError (Output (Watched σ ω) ω) Unit) := by
  intro unit sink calls
  cases unit with
  | none =>
      obtain ⟨result, hidle⟩ := emitTexts_idle texts sink calls
      exact tidy_unchanged hidle
  | some u =>
      obtain ⟨sink', hemit⟩ := emitTexts_recorded hsink u texts sink calls
      exact ⟨_, some u, sink', _, hemit, .texts u.writer texts⟩

/-- Whatever is asked for, the calls are tidy. -/
theorem act_tidy (action : Action) :
    MakesTidyCalls (act action : Attempt GenError (Output (Watched σ ω) ω) Unit) := by
  cases action with
  | report line => exact fun unit sink calls => tidy_unchanged rfl
  | code c => exact emitTexts_tidy hsink c.emission.texts
  | emission e => exact emitTexts_tidy hsink e.texts
  | openUnit name =>
      intro unit sink calls
      cases unit with
      | some u => exact tidy_unchanged (openUnit_opened u name)
      | none =>
          obtain ⟨w, sink', -, hopen⟩ := openUnit_idle hsink name sink calls
          exact ⟨_, _, sink', _, hopen, .create name⟩
  | closeUnit =>
      intro unit sink calls
      cases unit with
      | none => exact tidy_unchanged closeUnit_idle
      | some u =>
          obtain ⟨sink', hclose⟩ := closeUnit_opened hsink u sink calls
          exact ⟨_, _, sink', _, hclose, .flush u.writer⟩

theorem actAll_tidy (acts : List Action) :
    MakesTidyCalls (actAll acts : Attempt GenError (Output (Watched σ ω) ω) Unit) := by
  induction acts with
  | nil => exact fun unit sink calls => tidy_unchanged rfl
  | cons action rest ih =>
      intro unit sink calls
      obtain ⟨result, unit₁, sink₁, made, hact, hmade⟩ := act_tidy hsink action unit sink calls
      cases result with
      | error reason => exact ⟨_, unit₁, sink₁, made, actAll_cons_error hact rest, hmade⟩
      | ok _ =>
          obtain ⟨result, unit', sink', later, hrest, hlater⟩ := ih unit₁ sink₁ (calls ++ made)
          refine ⟨result, unit', sink', made ++ later, ?_, hmade.append hlater⟩
          rw [actAll_cons_ok hact, hrest, List.append_assoc]

/-- Inside of a unit all calls go through its writer. -/
theorem actAll_inUnit {inside : List Action} (h : InUnit inside) (u : OpenUnit ω) (sink : σ)
    (calls : List (Call ω)) :
    ∃ sink' made, actAll inside (recorded (some u) sink calls) =
      (.ok (), recorded (some u) sink' (calls ++ made)) ∧ ∀ c ∈ made, c.By u.writer := by
  induction inside generalizing sink calls with
  | nil => exact ⟨sink, [], by rw [List.append_nil]; rfl, by simp⟩
  | cons action rest ih =>
      obtain ⟨haction, hrest⟩ := List.forall_mem_cons.mp h
      have hact : ∃ (sink₁ : σ) (texts : List String), act action (recorded (some u) sink calls) =
          (.ok (), recorded (some u) sink₁ (calls ++ texts.flatMap (textCalls u.writer))) := by
        rcases haction with (⟨c, rfl⟩ | ⟨t, rfl⟩) | ⟨line, rfl⟩
        · obtain ⟨sink₁, h⟩ := emitTexts_recorded hsink u c.emission.texts sink calls
          exact ⟨sink₁, _, h⟩
        · obtain ⟨sink₁, h⟩ := emitTexts_recorded hsink u (Emission.comment t).texts sink calls
          exact ⟨sink₁, _, h⟩
        · exact ⟨sink, [], by rw [List.flatMap_nil, List.append_nil]; rfl⟩
      obtain ⟨sink₁, texts, hact⟩ := hact
      obtain ⟨sink', made, hmade, hby⟩ := ih hrest sink₁ (calls ++ texts.flatMap (textCalls u.writer))
      refine ⟨sink', texts.flatMap (textCalls u.writer) ++ made, ?_, ?_⟩
      · rw [actAll_cons_ok hact, hmade, List.append_assoc]
      · intro c hc
        rcases List.mem_append.mp hc with hc | hc
        · obtain ⟨text, -, hc⟩ := List.mem_flatMap.mp hc
          exact by_textCalls hc
        · exact hby c hc

end Output

variable [Sink σ ω]

/-- Actions that keep to the order of units make their calls unit by unit. -/
theorem UnitsIn.segments (hsink : Reliable σ) {acts : List Action}
    {units : List (String × List Action)} (h : UnitsIn acts units) (sink : σ)
    (calls : List (Call ω)) :
    ∃ sink' made, Output.actAll acts (.recorded none sink calls) =
      (.ok (), .recorded none sink' (calls ++ made)) ∧ Segments σ (units.map Prod.fst) made := by
  induction h generalizing sink calls with
  | nil => exact ⟨sink, [], by rw [List.append_nil]; rfl, .nil⟩
  | report _ ih => exact ih sink calls
  | @unit name inside rest units hinside _ ih =>
      obtain ⟨w, sink₁, hcreate, hopen⟩ := Output.openUnit_idle hsink name sink calls
      have hopen' : Output.act (.openUnit name) (Output.recorded none sink calls) = _ := hopen
      let u : OpenUnit ω := ⟨name, w⟩
      obtain ⟨sink₂, made, hmade, hby⟩ :=
        Output.actAll_inUnit hsink hinside u sink₁ (calls ++ [.create name])
      -- the same calls are those of a run of their own, so they are tidy
      have htidy : TidyCalls made := by
        obtain ⟨_, _, _, made', hsame, htidy⟩ :=
          Output.actAll_tidy hsink inside (some u) sink₁ (calls ++ [.create name])
        have hcalls := congrArg (fun run => run.2.sink.calls) (hsame.symm.trans hmade)
        exact List.append_cancel_left hcalls ▸ htidy
      obtain ⟨sink₃, hclose⟩ :=
        Output.closeUnit_opened hsink u sink₂ (calls ++ [.create name] ++ made)
      obtain ⟨sink', later, hlater, hsegments⟩ :=
        ih sink₃ (calls ++ [.create name] ++ made ++ [.flush w])
      have hclose' : Output.act .closeUnit (Output.recorded (some u) sink₂ _) = _ := hclose
      refine ⟨sink', .create name :: (made ++ .flush w :: later), ?_,
        .unit hcreate hby htidy.blocksFlushed hsegments⟩
      rw [Output.actAll_cons_ok hopen', Output.actAll_append_ok hmade,
        Output.actAll_cons_ok hclose', hlater]
      simp

/-- The trace of a run into a sink that refuses nothing. Whether the run succeeds or not,
    every block of writes is followed at once by a flush, and every write is one line of a
    unit. If it succeeds, the calls are made for one unit after the other: the structs in
    their order, and then the entry class. -/
theorem trace_of_run (hsink : Reliable σ) (setting : Setting) (program : Program) (sink : σ) :
    let run := watchedRun setting program sink none
    BlocksFlushed run.1 ∧
      (∀ w line, .write w line ∈ run.1 → IsUnitLine line) ∧
      (run.2 = .ok () →
        Segments σ (program.structs.map StructDef.name ++ [entryClass]) run.1) := by
  intro run
  have hrun := watchedRun_eq setting program sink none
  obtain ⟨result, unit', sink', made, hall, htidy⟩ :=
    Output.actAll_tidy hsink (program.actions setting) none sink []
  have hcalls : run.1 = made := by
    have hfirst := congrArg Prod.fst hrun
    exact hfirst.trans (congrArg (fun out => out.2.sink.calls) hall)
  rw [hcalls]
  refine ⟨htidy.blocksFlushed, fun w line => htidy.isUnitLine, fun hok => ?_⟩
  have hemits : Emits program.lower setting .initial () (program.actions setting) _ :=
    generate_emits hok
  obtain ⟨-, units, hunits, htexts⟩ := Program.lower_units hemits
  obtain ⟨_, made', hsame, hsegments⟩ := hunits.segments hsink sink []
  have hmade : made = made' :=
    congrArg (fun run => run.2.sink.calls) (hall.symm.trans hsame)
  have hnames : units.map Prod.fst = program.structs.map StructDef.name ++ [entryClass] := by
    rw [← Program.map_fst_texts program setting, ← htexts, Program.unitTexts, List.map_map]
    rfl
  rw [hmade, ← hnames]
  exact hsegments

/-- A program that can be lowered is written into a sink that refuses nothing. -/
theorem watchedRun_ok (hsink : Reliable σ) {setting : Setting} {program : Program}
    (h : (program.lower setting .initial).result = .ok ()) (sink : σ) :
    (watchedRun setting program sink none).2 = .ok () := by
  have hemits : Emits program.lower setting .initial () (program.actions setting) _ :=
    ⟨h, rfl, rfl⟩
  obtain ⟨-, units, hunits, -⟩ := Program.lower_units hemits
  obtain ⟨sink', made, hall, -⟩ := hunits.segments hsink sink []
  have hrun := Session.run_output_ok (s := .start (Watched.start sink none))
    program.propagates_lower hall
  exact hrun.2.trans h

end Runs

theorem Memory.reliable : Reliable Memory where
  createUnit name memory := ⟨name, memory.set name "", rfl⟩
  write name line memory := ⟨memory.append name line, rfl⟩
  flush _ memory := ⟨memory, rfl⟩

/-- A struct with a field whose name runs over two lines, and a loop. -/
def brokenNameProgram : Program where
  structs := [⟨"Pair", [⟨"left ;\n.limit", .int, none⟩]⟩]
  body := [.loop (.int 2) (.display (.int 1))]
  functions := []

theorem brokenNameProgram_lowers :
    (brokenNameProgram.lower (.ofProgram brokenNameProgram {}) .initial).result = .ok () := by
  decide +kernel

theorem trace_of_brokenNameProgram :
    let run := watchedRun (.ofProgram brokenNameProgram {}) brokenNameProgram Memory.empty none
    run.2 = .ok () ∧ BlocksFlushed run.1 ∧
      (∀ w line, .write w line ∈ run.1 → IsUnitLine line) ∧
      Segments Memory ["Pair", "Main"] run.1 := by
  intro run
  have hok : run.2 = .ok () :=
    watchedRun_ok Memory.reliable brokenNameProgram_lowers Memory.empty
  obtain ⟨hblocks, hlines, hsegments⟩ :=
    trace_of_run Memory.reliable (.ofProgram brokenNameProgram {}) brokenNameProgram Memory.empty
  exact ⟨hok, hblocks, hlines, hsegments hok⟩

end JasminGen
