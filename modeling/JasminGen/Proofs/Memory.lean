/-
  JasminGen.Proofs.Memory

  Runs into memory. A sink that keeps units as texts refuses nothing, so a run into it
  fails only where the program cannot be lowered, and then the unit of the entry class
  holds exactly what was written between its opening and its closing.

  Main definition: `writtenBy`. Main results: `generate_memory_ok`,
  `generate_memory_entry`.
-/

import JasminGen.Output.Memory
import JasminGen.Proofs.Lowering.Program
import Mathlib.Control.Monad.Basic

namespace JasminGen

-- ============================================================================
-- Texts of actions
-- ============================================================================

/-- The text that a request writes. -/
def Emission.written (e : Emission) : String :=
  String.join (e.texts.map fun text => String.join (formatText text))

/-- The text that an action writes into the open unit. -/
def Action.written : Action → String
  | .code c => c.emission.written
  | .emission e => e.written
  | .openUnit _ | .closeUnit | .report _ => ""

/-- The text that actions write into the open unit. -/
def writtenBy (acts : List Action) : String :=
  String.join (acts.map Action.written)

theorem writtenBy_append (acts acts' : List Action) :
    writtenBy (acts ++ acts') = writtenBy acts ++ writtenBy acts' := by
  rw [writtenBy, List.map_append, String.join_append]
  rfl

-- ============================================================================
-- Units in memory
-- ============================================================================

namespace Memory

theorem alterIn_self (name text : String) (change : String → String)
    (rest : List (String × String)) :
    alterIn name change ((name, text) :: rest) = (name, change text) :: rest := by
  rw [alterIn, if_neg (String.lt_irrefl name), if_pos rfl]

theorem alterIn_alterIn (name : String) (f g : String → String) (units : List (String × String)) :
    alterIn name g (alterIn name f units) = alterIn name (fun text => g (f text)) units := by
  induction units with
  | nil => rw [alterIn, alterIn_self, alterIn]
  | cons entry rest ih =>
      obtain ⟨other, text⟩ := entry
      by_cases hlt : name < other
      · rw [alterIn, if_pos hlt, alterIn_self, alterIn, if_pos hlt]
      · by_cases heq : name = other
        · subst heq
          rw [alterIn_self, alterIn_self, alterIn_self]
        · simp [alterIn, hlt, heq, ih]

theorem lookup_alterIn (name text : String) (units : List (String × String)) :
    (alterIn name (fun _ => text) units).lookup name = some text := by
  induction units with
  | nil => simp [alterIn]
  | cons entry rest ih =>
      obtain ⟨other, old⟩ := entry
      by_cases hlt : name < other
      · simp [alterIn, hlt]
      · by_cases heq : name = other
        · subst heq
          rw [alterIn_self, List.lookup_cons_self]
        · have hne : (name == other) = false := beq_eq_false_iff_ne.mpr heq
          simp [alterIn, hlt, heq, hne, List.lookup_cons, ih]

theorem lookup_alterIn_of_ne {name other : String} (h : name ≠ other) (change : String → String)
    (units : List (String × String)) :
    (alterIn other change units).lookup name = units.lookup name := by
  have hne : (name == other) = false := beq_eq_false_iff_ne.mpr h
  induction units with
  | nil => simp [alterIn, hne, List.lookup_cons]
  | cons entry rest ih =>
      obtain ⟨third, text⟩ := entry
      by_cases hlt : other < third
      · simp [alterIn, hlt, hne, List.lookup_cons]
      · by_cases heq : other = third
        · subst heq
          rw [alterIn_self, List.lookup_cons, List.lookup_cons, hne]
        · simp [alterIn, hlt, heq, List.lookup_cons, ih]

@[simp] theorem unit?_set (memory : Memory) (name text : String) :
    (memory.set name text).unit? name = some text :=
  lookup_alterIn name text memory.units

theorem unit?_set_of_ne (memory : Memory) {name other : String} (h : name ≠ other) (text : String) :
    (memory.set other text).unit? name = memory.unit? name :=
  lookup_alterIn_of_ne h _ memory.units

@[simp] theorem append_set (memory : Memory) (name text more : String) :
    (memory.set name text).append name more = memory.set name (text ++ more) := by
  rw [append, set, set, alterIn_alterIn]

end Memory

-- ============================================================================
-- Writing into a unit
-- ============================================================================

namespace Output

/-- An output into memory whose open unit `name` holds the text `text`. -/
def writing (memory : Memory) (name text : String) : Output Memory String :=
  ⟨some ⟨name, name⟩, memory.set name text⟩

variable {memory : Memory} {name text : String}

theorem useSink_append (more : String) :
    useSink (Sink.writeAll name more) (writing memory name text) =
      (.ok (), writing memory name (text ++ more)) := by
  rw [writing, writing, ← Memory.append_set]
  rfl

theorem writeLines_writing (lines : List String) :
    writeLines name lines (writing memory name text) =
      (.ok (), writing memory name (text ++ String.join lines)) := by
  induction lines generalizing text with
  | nil => simp [writeLines, String.join]; rfl
  | cons line rest ih =>
      rw [writeLines, Attempt.bind_ok (useSink_append line), ih]
      simp [String.append_assoc]

theorem emitText_writing (t : String) :
    emitText t (writing memory name text) =
      (.ok (), writing memory name (text ++ String.join (formatText t))) := by
  have hget : (get : Attempt GenError (Output Memory String) _) (writing memory name text) =
      (.ok (writing memory name text), writing memory name text) := rfl
  rw [emitText, Attempt.bind_ok hget]
  exact Attempt.bind_ok (writeLines_writing (formatText t))

theorem emitTexts_writing (texts : List String) :
    emitTexts texts (writing memory name text) =
      (.ok (), writing memory name
        (text ++ String.join (texts.map fun t => String.join (formatText t)))) := by
  induction texts generalizing text with
  | nil => simp [emitTexts]; rfl
  | cons t rest ih =>
      rw [emitTexts, Attempt.bind_ok (emitText_writing t), ih]
      simp [String.append_assoc]

end Output

-- ============================================================================
-- Runs
-- ============================================================================

namespace Session

variable {memory : Memory} {name text : String}

/-- A session that has no open unit. -/
def idle (f : Frame) (memory : Memory) (reports : List String) : Session Memory String :=
  ⟨f, ⟨none, memory⟩, reports⟩

/-- A session whose open unit `name` holds the text `text`. -/
def writing (f : Frame) (memory : Memory) (name text : String) (reports : List String) :
    Session Memory String :=
  ⟨f, Output.writing memory name text, reports⟩

theorem perform_emission (e : Emission) (f : Frame) (reports : List String) :
    perform (.emission e) (writing f memory name text reports) =
      (.ok (), writing f memory name (text ++ e.written) reports) := by
  have h : Output.perform e (Output.writing memory name text) =
      (.ok (), Output.writing memory name (text ++ e.written)) :=
    Output.emitTexts_writing e.texts
  simp only [perform, useOutput, writing, h]

/-- An action inside of a unit adds its text to the unit. -/
theorem perform_inUnit (memory : Memory) (name text : String) {action : Action}
    (h : action.InUnit) (f : Frame) (reports : List String) :
    ∃ reports', perform action (writing f memory name text reports) =
      (.ok (), writing f memory name (text ++ action.written) reports') := by
  rcases h with (⟨c, rfl⟩ | ⟨t, rfl⟩) | ⟨line, rfl⟩
  · exact ⟨reports, perform_emission c.emission f reports⟩
  · exact ⟨reports, perform_emission (.comment t) f reports⟩
  · refine ⟨reports ++ [line], ?_⟩
    rw [Action.written, String.append_empty]
    rfl

theorem performAll_inUnit (memory : Memory) (name text : String) {inside : List Request}
    (h : InUnit (inside.map Request.action)) (f : Frame) (reports : List String)
    (rest : List Request) :
    ∃ f' reports', performAll (inside ++ rest) (writing f memory name text reports) =
      performAll rest (writing f' memory name
        (text ++ writtenBy (inside.map Request.action)) reports') := by
  induction inside generalizing text f reports with
  | nil => exact ⟨f, reports, by simp [writtenBy]⟩
  | cons r inside ih =>
      obtain ⟨hr, hinside⟩ := List.forall_mem_cons.mp h
      obtain ⟨reports₁, hperform⟩ := perform_inUnit memory name text hr r.frame reports
      obtain ⟨f', reports', hrest⟩ := ih (text ++ r.action.written) hinside r.frame reports₁
      refine ⟨f', reports', ?_⟩
      rw [List.cons_append, performAll_cons_ok hperform, hrest]
      simp [writtenBy, String.append_assoc]

/-- A unit that is opened, written and closed holds what was written. -/
theorem performAll_unit (memory : Memory) {opening closing : Request} {inside : List Request}
    (hopening : opening.action = .openUnit name) (hclosing : closing.action = .closeUnit)
    (h : InUnit (inside.map Request.action)) (f : Frame) (reports : List String)
    (rest : List Request) :
    ∃ f' reports', performAll (opening :: (inside ++ closing :: rest)) (idle f memory reports) =
      performAll rest (idle f' (memory.set name (writtenBy (inside.map Request.action)))
        reports') := by
  obtain ⟨f₁, reports', hinside⟩ :=
    performAll_inUnit memory name "" h opening.frame reports (closing :: rest)
  have hopen : perform opening.action (idle opening.frame memory reports) =
      (.ok (), writing opening.frame memory name "" reports) := by
    rw [hopening]
    rfl
  refine ⟨closing.frame, reports', ?_⟩
  rw [performAll_cons_ok hopen, hinside, String.empty_append]
  apply performAll_cons_ok
  rw [hclosing]
  rfl

/-- Nothing that stands between the opening and the closing of units is refused. -/
theorem performAll_bracketed {acts : List Action} (h : Bracketed acts) :
    ∀ (rs : List Request), rs.map Request.action = acts →
      ∀ (f : Frame) (memory : Memory) (reports : List String) (rest : List Request),
        ∃ f' memory' reports', performAll (rs ++ rest) (idle f memory reports) =
          performAll rest (idle f' memory' reports') := by
  induction h with
  | nil =>
      intro rs hrs f memory reports rest
      obtain rfl := List.map_eq_nil_iff.mp hrs
      exact ⟨f, memory, reports, rfl⟩
  | @report line acts _ ih =>
      intro rs hrs f memory reports rest
      obtain ⟨r, rs, rfl, hr, hrs⟩ := List.map_eq_cons_iff.mp hrs
      have hreport : perform r.action (idle r.frame memory reports) =
          (.ok (), idle r.frame memory (reports ++ [line])) := by
        rw [hr]
        rfl
      obtain ⟨f', memory', reports', hrest⟩ := ih rs hrs r.frame memory (reports ++ [line]) rest
      refine ⟨f', memory', reports', ?_⟩
      rw [List.cons_append, performAll_cons_ok hreport, hrest]
  | @unit name inside acts hinside _ ih =>
      intro rs hrs f memory reports rest
      obtain ⟨opening, _, rfl, hopening, hopened⟩ := List.map_eq_cons_iff.mp hrs
      obtain ⟨insides, _, rfl, rfl, hwritten⟩ := List.map_eq_append_iff.mp hopened
      obtain ⟨closing, rs, rfl, hclosing, hrest⟩ := List.map_eq_cons_iff.mp hwritten
      obtain ⟨f₁, reports₁, hunit⟩ :=
        performAll_unit memory hopening hclosing hinside f reports (rs ++ rest)
      obtain ⟨f', memory', reports', hall⟩ := ih rs hrest f₁ _ reports₁ rest
      refine ⟨f', memory', reports', ?_⟩
      rw [List.cons_append, List.append_assoc, List.cons_append, hunit, hall]

end Session

variable {setting : Setting} {program : Program}

/-- A program that can be lowered is written into memory. -/
theorem generate_memory_ok (memory : Memory)
    (h : (program.lower setting .initial).result = .ok ()) :
    (generate setting program memory).1 = .ok () := by
  have hlower : Emits program.lower setting .initial () _ _ := ⟨h, rfl, rfl⟩
  obtain ⟨_, _, _, hunits⟩ := Program.lower_methods hlower
  obtain ⟨f', memory', reports', hall⟩ :=
    Session.performAll_bracketed hunits _ rfl .initial memory [] []
  rw [List.append_nil] at hall
  rw [generate, Session.run_performed program.propagates_lower hall]
  exact h

/-- What a run has written into the unit of the entry class. -/
theorem generate_memory_entry {memory : Memory}
    (h : (generate setting program memory).1 = .ok ()) :
    ∃ structActs entryActs f₁ f', program.actions setting = structActs ++ entryActs ∧
      ∃ e : EntryActions setting program.body program.functions f₁ entryActs f',
        (generate setting program memory).2.output.sink.unit? entryClass =
          some (writtenBy e.inside) := by
  obtain ⟨structActs, entryActs, f₁, _, hacts, _, _, hunits, ⟨e⟩⟩ :=
    Program.lower_entry (generate_emits h)
  refine ⟨structActs, entryActs, f₁, _, hacts, e, ?_⟩
  -- the requests before the unit, the one that opens it, those inside and the last one
  have hrequests : (program.lower setting .initial).requests.map Request.action =
      (structActs ++ e.before) ++ .openUnit entryClass :: (e.inside ++ [.closeUnit]) := by
    rw [List.append_assoc, ← congrArg (structActs ++ ·) e.acts_eq]
    exact hacts
  obtain ⟨earlier, _, hsplit, hearlier, hlater⟩ := List.map_eq_append_iff.mp hrequests
  obtain ⟨opening, _, rfl, hopening, hopened⟩ := List.map_eq_cons_iff.mp hlater
  obtain ⟨inside, _, rfl, hinside, hwritten⟩ := List.map_eq_append_iff.mp hopened
  obtain ⟨closing, _, rfl, hclosing, hlast⟩ := List.map_eq_cons_iff.mp hwritten
  obtain rfl := List.map_eq_nil_iff.mp hlast
  obtain ⟨f₂, memory₂, reports₂, hbefore⟩ := Session.performAll_bracketed
    (hunits.append e.before_reports.bracketed) earlier hearlier .initial memory [] _
  obtain ⟨f₃, reports₃, hunit⟩ := Session.performAll_unit memory₂ hopening hclosing
    (hinside ▸ e.inside_inUnit) f₂ reports₂ []
  rw [← hsplit, hunit, hinside] at hbefore
  have hrun : generate setting program memory = _ :=
    Session.run_performed program.propagates_lower hbefore
  have hunit? := congrArg (fun run => run.2.output.sink.unit? entryClass) hrun
  exact hunit?.trans (Memory.unit?_set memory₂ entryClass (writtenBy e.inside))

end JasminGen
