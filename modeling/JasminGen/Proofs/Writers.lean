/-
  JasminGen.Proofs.Writers

  A memory that several writers share. A unit is created, written through any writer that
  was ever given out for it, and replaced when it is created again or when the support
  classes are installed, all in any order. What a unit holds in the end is read off the
  list of uses: the text it was last set to, and what was written into it since.

  What one use does to a unit is said by `unit?_of_reset?`, `unit?_of_added?` and
  `unit?_of_neither`; `unit?_stateAfter` puts them together along a run.

  Main definitions: `Memory.Use`, `Memory.Shared`, `Use.reset?`, `Use.added?`. Main result:
  `units_of_uses`.
-/

import JasminGen.Proofs.Classes
import JasminGen.Proofs.Transcript
import JasminGen.Proofs.Utf8

namespace JasminGen

namespace Memory

-- ============================================================================
-- Uses of a memory
-- ============================================================================

/-- A use of a memory. Writers are known by the order in which they were given out. -/
inductive Use where
  | create (name : String)
  | write (writer : Nat) (bytes : List UInt8)
  | flush (writer : Nat)
  | install
  deriving DecidableEq

/-- What a use gives back. -/
inductive Reply where
  | writer (number : Nat)
  | written (count : Nat)
  | done
  deriving DecidableEq

/-- A memory and the writers that it has given out. -/
structure Shared where
  memory : Memory
  writers : List String

namespace Shared

def start : Shared := ⟨Memory.empty, []⟩

/-- Do something with the memory. -/
def attempt {α : Type} (s : Shared) (use : Attempt OutputError Memory α) (reply : α → Reply) :
    Except OutputError Reply × Shared :=
  ((use s.memory).1.map reply, ⟨(use s.memory).2, s.writers⟩)

/-- Do something with a writer; there is nothing to do with one that was not given out. -/
def attemptWith {α : Type} (s : Shared) (writer : Nat)
    (use : String → Attempt OutputError Memory α) (reply : α → Reply) :
    Except OutputError Reply × Shared :=
  match s.writers[writer]? with
  | some name => s.attempt (use name) reply
  | none => (.ok .done, s)

/-- Use a memory: what comes back, and the memory after it. -/
def perform (s : Shared) : Use → Except OutputError Reply × Shared
  | .create name =>
    match (Sink.createUnit name : Attempt OutputError Memory String) s.memory with
    | (.ok writer, memory) => (.ok (.writer s.writers.length), ⟨memory, s.writers ++ [writer]⟩)
    | (.error reason, memory) => (.error reason, ⟨memory, s.writers⟩)
  | .write writer bytes => s.attemptWith writer (fun name => writeBytes name bytes) .written
  | .flush writer => s.attemptWith writer Sink.flush fun _ => .done
  | .install => s.attempt Sink.installSupport fun _ => .done

end Shared

/-- The memory after uses of an empty one, with the writers that were given out. -/
def sharedAfter (uses : List Use) : Shared :=
  stateAfter Shared.perform .start uses

/-- What uses of an empty memory give back, in order. -/
def replies (uses : List Use) : List (Except OutputError Reply) :=
  answersTo Shared.perform .start uses

-- ============================================================================
-- What uses say about units
-- ============================================================================

namespace Use

/-- The name of the unit that a use creates. -/
def created? : Use → Option String
  | .create name => some name
  | .write _ _ | .flush _ | .install => none

/-- The writer that a use goes through. -/
def writer? : Use → Option Nat
  | .write writer _ | .flush writer => some writer
  | .create _ | .install => none

/-- The text that a use sets a unit to. -/
def reset? (name : String) : Use → Option String
  | .create other => if other = name then some "" else none
  | .install =>
    if name = "List" then some listSupport.source
    else if name = "Fptr" then some fptrSupport.source
    else none
  | .write _ _ | .flush _ => none

/-- The text that a use adds to a unit, where `names` are the names of the units that the
    writers are for. -/
def added? (names : List String) (name : String) : Use → Option String
  | .write writer bytes =>
    if names[writer]? = some name then String.fromUTF8? bytes.toByteArray else none
  | .create _ | .flush _ | .install => none

theorem mem_of_added? {names : List String} {name more : String} {use : Use}
    (h : use.added? names name = some more) : name ∈ names := by
  cases use with
  | write writer bytes =>
      rw [added?, Option.ite_none_right_eq_some] at h
      exact List.mem_of_getElem? h.1
  | create other => cases h
  | flush writer => cases h
  | install => cases h

/-- Writers that are given out later do not matter. -/
theorem added?_append {names : List String} {name : String} {use : Use}
    (h : ∀ writer, use.writer? = some writer → writer < names.length) (more : List String) :
    use.added? (names ++ more) name = use.added? names name := by
  cases use with
  | write writer bytes => rw [added?, added?, List.getElem?_append_left (h writer rfl)]
  | create other => rfl
  | flush writer => rfl
  | install => rfl

/-- The units that a use names. -/
def named (names : List String) : Use → List String
  | .create name => [name]
  | .write writer _ | .flush writer => names[writer]?.toList
  | .install => ["List", "Fptr"]

theorem unchanged_of_not_named {names : List String} {name : String} {use : Use}
    (h : name ∉ use.named names) : use.reset? name = none ∧ use.added? names name = none := by
  cases use with
  | create other => simpa [named, reset?, added?, eq_comm] using h
  | install =>
      obtain ⟨hlist, hfptr⟩ : name ≠ "List" ∧ name ≠ "Fptr" := by simpa [named] using h
      exact ⟨by simp [reset?, hlist, hfptr], rfl⟩
  | flush writer => exact ⟨rfl, rfl⟩
  | write writer bytes =>
      refine ⟨rfl, if_neg fun hname => h ?_⟩
      rw [named, hname]
      exact List.mem_singleton_self name

end Use

/-- The names of the units that the writers are for, in the order of the writers. -/
def createdNames (uses : List Use) : List String :=
  uses.filterMap Use.created?

/-- Writers are used after they were given out, where `count` is the number of those before. -/
def UsesGiven (count : Nat) : List Use → Prop
  | [] => True
  | use :: rest => (∀ writer, use.writer? = some writer → writer < count) ∧
      UsesGiven (count + use.created?.toList.length) rest

-- ============================================================================
-- Adding to a unit
-- ============================================================================

/-- In an ordered list, the text that is changed is the one that was looked up. -/
theorem lookup_alterIn_change {units : List (String × String)} {name : String}
    (h : (units.map Prod.fst).Pairwise (· < ·)) (change : String → String) :
    (alterIn name change units).lookup name = some (change ((units.lookup name).getD "")) := by
  induction units with
  | nil => simp [alterIn]
  | cons unit rest ih =>
      obtain ⟨other, text⟩ := unit
      obtain ⟨hother, hrest⟩ := List.pairwise_cons.mp h
      by_cases hlt : name < other
      · -- all names are greater, so there was no such unit
        have hnone : ((other, text) :: rest).lookup name = none := by
          rw [List.lookup_eq_none_iff]
          intro unit hunit
          rw [bne_iff_ne]
          rintro rfl
          rcases List.mem_cons.mp hunit with rfl | hunit
          · exact String.lt_irrefl _ hlt
          · exact String.lt_irrefl _
              (String.lt_trans hlt (hother _ (List.mem_map_of_mem hunit)))
        simp [alterIn, hlt, hnone]
      · by_cases heq : name = other
        · subst heq
          rw [alterIn_self, List.lookup_cons_self, List.lookup_cons_self, Option.getD_some]
        · have hne : (name == other) = false := beq_eq_false_iff_ne.mpr heq
          simp [alterIn, hlt, heq, hne, List.lookup_cons, ih hrest]

section

variable {memory : Memory} {name : String} {bytes : List UInt8}

theorem unit?_append (h : memory.unitNames.Pairwise (· < ·)) (more : String) :
    (memory.append name more).unit? name = some ((memory.unit? name).getD "" ++ more) :=
  lookup_alterIn_change h _

theorem unit?_append_of_ne {other : String} (h : name ≠ other) (more : String) :
    (memory.append other more).unit? name = memory.unit? name :=
  lookup_alterIn_of_ne h _ memory.units

theorem unit?_eq_none_iff : memory.unit? name = none ↔ name ∉ memory.unitNames := by
  rw [unit?, List.lookup_eq_none_iff, unitNames, List.mem_map]
  constructor
  · rintro h ⟨unit, hunit, rfl⟩
    simpa using h unit hunit
  · intro h unit hunit
    rw [bne_iff_ne]
    exact fun heq => h ⟨unit, hunit, heq.symm⟩

theorem mem_unitNames_iff : name ∈ memory.unitNames ↔ (memory.unit? name).isSome := by
  rw [← not_iff_not, ← unit?_eq_none_iff, Option.not_isSome_iff_eq_none]

/-- Bytes that are a text in UTF-8 are added to the unit. -/
theorem writeBytes_of_text {text : String}
    (h : String.fromUTF8? bytes.toByteArray = some text) (name : String) (memory : Memory) :
    writeBytes name bytes memory = (.ok bytes.length, memory.append name text) := by
  rw [writeBytes, Text.fromUTF8?_eq_some_iff.mp h]
  simp only [String.ofList_toList]
  rfl

/-- Other bytes are refused. -/
theorem writeBytes_of_none (h : String.fromUTF8? bytes.toByteArray = none) (name : String)
    (memory : Memory) :
    ∃ reason, writeBytes name bytes memory = (.error (.malformed reason), memory) := by
  obtain ⟨reason, hreason⟩ := Text.decodeUtf8_of_fromUTF8?_eq_none h
  refine ⟨reason, ?_⟩
  rw [writeBytes, hreason]
  rfl

/-- A text is written like its bytes. -/
theorem write_eq_writeBytes (name text : String) (memory : Memory) :
    (Sink.write name text : Attempt OutputError Memory Unit) memory =
      (.ok (), (writeBytes name text.toUTF8.data.toList memory).2) := by
  have htext : String.fromUTF8? text.toUTF8.data.toList.toByteArray = some text := by
    rw [Text.fromUTF8?_eq_some_iff, Text.decodeUtf8_eq_ok_iff]
    exact Text.toList_toUTF8 text
  rw [writeBytes_of_text htext]
  rfl

end

-- ============================================================================
-- One use
-- ============================================================================

namespace Shared

variable {s : Shared} {name : String} {writer : Nat} {bytes : List UInt8}

theorem perform_create : s.perform (.create name) =
    (.ok (.writer s.writers.length), ⟨s.memory.set name "", s.writers ++ [name]⟩) := rfl

theorem perform_install : s.perform .install = (.ok .done, ⟨s.memory.install, s.writers⟩) := rfl

theorem perform_flush : s.perform (.flush writer) = (.ok .done, s) := by
  rw [perform, attemptWith]
  split <;> rfl

theorem perform_write_text {text : String} (hwriter : s.writers[writer]? = some name)
    (h : String.fromUTF8? bytes.toByteArray = some text) :
    s.perform (.write writer bytes) =
      (.ok (.written bytes.length), ⟨s.memory.append name text, s.writers⟩) := by
  rw [perform, attemptWith, hwriter]
  simp only [attempt, writeBytes_of_text h]
  rfl

theorem perform_write_none (hwriter : s.writers[writer]? = some name)
    (h : String.fromUTF8? bytes.toByteArray = none) :
    ∃ reason, s.perform (.write writer bytes) = (.error (.malformed reason), s) := by
  obtain ⟨reason, hreason⟩ := writeBytes_of_none h name s.memory
  refine ⟨reason, ?_⟩
  rw [perform, attemptWith, hwriter]
  simp only [attempt, hreason]
  rfl

theorem perform_write_unknown (hwriter : s.writers[writer]? = none) :
    s.perform (.write writer bytes) = (.ok .done, s) := by
  rw [perform, attemptWith, hwriter]

/-- What a write does to the memory, whatever the writer and the bytes are. -/
theorem memory_write_cases (s : Shared) (writer : Nat) (bytes : List UInt8) :
    (∃ name text, s.writers[writer]? = some name ∧
      String.fromUTF8? bytes.toByteArray = some text ∧
      (s.perform (.write writer bytes)).2 = ⟨s.memory.append name text, s.writers⟩) ∨
    ((s.writers[writer]? = none ∨ String.fromUTF8? bytes.toByteArray = none) ∧
      (s.perform (.write writer bytes)).2 = s) := by
  cases hwriter : s.writers[writer]? with
  | none => exact .inr ⟨.inl rfl, by rw [perform_write_unknown hwriter]⟩
  | some name =>
      cases htext : String.fromUTF8? bytes.toByteArray with
      | some text => exact .inl ⟨name, text, rfl, rfl, by rw [perform_write_text hwriter htext]⟩
      | none =>
          obtain ⟨reason, hperform⟩ := perform_write_none hwriter htext
          exact .inr ⟨.inr rfl, by rw [hperform]⟩

/-- A use gives out a writer if it creates a unit. -/
theorem writers_perform (s : Shared) (use : Use) :
    (s.perform use).2.writers = s.writers ++ use.created?.toList := by
  cases use with
  | create name => rfl
  | install => exact (List.append_nil _).symm
  | flush writer =>
      rw [perform_flush]
      exact (List.append_nil _).symm
  | write writer bytes =>
      rw [Use.created?, Option.toList_none, List.append_nil]
      rcases memory_write_cases s writer bytes with ⟨_, _, -, -, hs⟩ | ⟨-, hs⟩ <;> rw [hs]

theorem memory_install (memory : Memory) : memory.install =
    (memory.set "List" listSupport.source).set "Fptr" fptrSupport.source := rfl

/-- A use that sets a unit leaves the text it sets. -/
theorem unit?_of_reset? {use : Use} {text : String} (h : use.reset? name = some text) :
    (s.perform use).2.memory.unit? name = some text := by
  cases use with
  | create other =>
      rw [Use.reset?, Option.ite_none_right_eq_some] at h
      obtain ⟨rfl, h⟩ := h
      rw [perform_create, unit?_set, h]
  | install =>
      rw [perform_install, memory_install]
      rw [Use.reset?] at h
      split at h
      · next hlist =>
          rw [hlist, unit?_set_of_ne _ (by decide), unit?_set, h]
      · split at h
        · next hfptr => rw [hfptr, unit?_set, h]
        · cases h
  | write writer bytes => cases h
  | flush writer => cases h

/-- A use that adds to a unit leaves the text behind what was there. -/
theorem unit?_of_added? (hsorted : s.memory.unitNames.Pairwise (· < ·)) {use : Use}
    {more : String} (h : use.added? s.writers name = some more) :
    (s.perform use).2.memory.unit? name = some ((s.memory.unit? name).getD "" ++ more) := by
  cases use with
  | write writer bytes =>
      rw [Use.added?, Option.ite_none_right_eq_some] at h
      rw [perform_write_text h.1 h.2]
      exact unit?_append hsorted more
  | create other => cases h
  | install => cases h
  | flush writer => cases h

/-- Other uses leave a unit as it is. -/
theorem unit?_of_neither {use : Use} (hreset : use.reset? name = none)
    (hadded : use.added? s.writers name = none) :
    (s.perform use).2.memory.unit? name = s.memory.unit? name := by
  cases use with
  | create other =>
      rw [Use.reset?, ite_eq_right_iff] at hreset
      exact unit?_set_of_ne _ (fun heq => nomatch hreset heq.symm) _
  | install =>
      rw [Use.reset?] at hreset
      split at hreset
      · cases hreset
      · next hlist =>
          split at hreset
          · cases hreset
          · next hfptr =>
              rw [perform_install, memory_install, unit?_set_of_ne _ hfptr, unit?_set_of_ne _ hlist]
  | flush writer => rw [perform_flush]
  | write writer bytes =>
      rcases memory_write_cases s writer bytes with ⟨other, text, hwriter, htext, hs⟩ | ⟨-, hs⟩
      · rw [hs]
        apply unit?_append_of_ne
        rintro rfl
        rw [Use.added?, if_pos hwriter, htext] at hadded
        cases hadded
      · rw [hs]

theorem sorted_perform (hsorted : s.memory.unitNames.Pairwise (· < ·)) (use : Use) :
    (s.perform use).2.memory.unitNames.Pairwise (· < ·) := by
  cases use with
  | create other => exact pairwise_alterIn _ hsorted
  | install => exact pairwise_alterIn _ (pairwise_alterIn _ hsorted)
  | flush writer => rwa [perform_flush]
  | write writer bytes =>
      rcases memory_write_cases s writer bytes with ⟨_, _, -, -, hs⟩ | ⟨-, hs⟩ <;> rw [hs]
      · exact pairwise_alterIn _ hsorted
      · exact hsorted

theorem mem_unitNames_perform (hwriters : ∀ name ∈ s.writers, name ∈ s.memory.unitNames)
    (hsorted : s.memory.unitNames.Pairwise (· < ·)) (use : Use) (name : String) :
    name ∈ (s.perform use).2.memory.unitNames ↔
      name ∈ s.memory.unitNames ∨ (use.reset? name).isSome := by
  rw [mem_unitNames_iff, mem_unitNames_iff]
  cases hreset : use.reset? name with
  | some text => simp [unit?_of_reset? hreset]
  | none =>
      cases hadded : use.added? s.writers name with
      | none => simp [unit?_of_neither hreset hadded]
      | some more =>
          have hmem : name ∈ s.memory.unitNames := hwriters name (Use.mem_of_added? hadded)
          simp [unit?_of_added? hsorted hadded, mem_unitNames_iff.mp hmem]

end Shared

-- ============================================================================
-- All uses
-- ============================================================================

section

variable {uses : List Use} {name : String}

theorem createdNames_cons (use : Use) (uses : List Use) :
    createdNames (use :: uses) = use.created?.toList ++ createdNames uses := by
  cases h : use.created? <;> simp [createdNames, h]

theorem createdNames_append (uses more : List Use) :
    createdNames (uses ++ more) = createdNames uses ++ createdNames more :=
  List.filterMap_append

theorem mem_createdNames : name ∈ createdNames uses ↔ .create name ∈ uses := by
  rw [createdNames, List.mem_filterMap]
  constructor
  · rintro ⟨use, huse, hname⟩
    cases use with
    | create other =>
        cases hname
        exact huse
    | _ => cases hname
  · exact fun h => ⟨_, h, rfl⟩

theorem usesGiven_append {count : Nat} {uses more : List Use} :
    UsesGiven count (uses ++ more) ↔
      UsesGiven count uses ∧ UsesGiven (count + (createdNames uses).length) more := by
  induction uses generalizing count with
  | nil => simp [UsesGiven, createdNames]
  | cons use rest ih =>
      rw [List.cons_append, UsesGiven, UsesGiven, ih, createdNames_cons, List.length_append,
        Nat.add_assoc, and_assoc]

end

/-- A memory and its writers are what uses have made of them. -/
structure BuiltBy (uses : List Use) (s : Shared) : Prop where
  writers_eq : s.writers = createdNames uses
  sorted : s.memory.unitNames.Pairwise (· < ·)
  mem_unitNames : ∀ name, name ∈ s.memory.unitNames ↔ ∃ use ∈ uses, (use.reset? name).isSome

namespace BuiltBy

variable {uses : List Use} {s : Shared}

/-- The units of all writers exist. -/
theorem mem_of_writer (h : BuiltBy uses s) {name : String} (hname : name ∈ s.writers) :
    name ∈ s.memory.unitNames := by
  rw [h.writers_eq, mem_createdNames] at hname
  exact (h.mem_unitNames name).mpr ⟨_, hname, by simp [Use.reset?]⟩

theorem perform (h : BuiltBy uses s) (use : Use) : BuiltBy (uses ++ [use]) (s.perform use).2 where
  writers_eq := by
    rw [Shared.writers_perform, h.writers_eq, createdNames_append, createdNames_cons]
    exact congrArg _ (List.append_nil _).symm
  sorted := Shared.sorted_perform h.sorted use
  mem_unitNames name := by
    rw [Shared.mem_unitNames_perform (fun _ => h.mem_of_writer) h.sorted, h.mem_unitNames]
    simp [or_and_right, exists_or]

end BuiltBy

theorem builtBy_sharedAfter (uses : List Use) : BuiltBy uses (sharedAfter uses) :=
  stateAfter_invariant (P := BuiltBy) ⟨rfl, .nil, by simp [Shared.start, empty, unitNames]⟩
    (fun _ _ use h => h.perform use) uses

/-- Until a unit is set again, it holds what it held and what is added to it, in order. -/
theorem unit?_stateAfter {name : String} {uses : List Use} {s : Shared} {text : String}
    (hsorted : s.memory.unitNames.Pairwise (· < ·)) (hgiven : UsesGiven s.writers.length uses)
    (htext : s.memory.unit? name = some text) (hreset : ∀ use ∈ uses, use.reset? name = none) :
    (stateAfter Shared.perform s uses).memory.unit? name = some (text ++
      String.join (uses.filterMap (Use.added? (s.writers ++ createdNames uses) name))) := by
  induction uses generalizing s text with
  | nil => simpa [stateAfter] using htext
  | cons use rest ih =>
      obtain ⟨hwriter, hgiven⟩ := hgiven
      obtain ⟨hreset, hresets⟩ := List.forall_mem_cons.mp hreset
      have hadded : use.added? (s.writers ++ createdNames (use :: rest)) name =
          use.added? s.writers name := Use.added?_append hwriter _
      have hwriters := Shared.writers_perform s use
      have hnames : s.writers ++ createdNames (use :: rest) =
          (s.perform use).2.writers ++ createdNames rest := by
        rw [hwriters, createdNames_cons, List.append_assoc]
      have hgiven : UsesGiven (s.perform use).2.writers.length rest := by
        rwa [hwriters, List.length_append]
      have hsorted' := Shared.sorted_perform hsorted use
      change (stateAfter Shared.perform (s.perform use).2 rest).memory.unit? name = _
      cases hmore : use.added? s.writers name with
      | none =>
          have hunit := (Shared.unit?_of_neither hreset hmore).trans htext
          rw [ih hsorted' hgiven hunit hresets, List.filterMap_cons, hadded, hmore, hnames]
      | some more =>
          have hunit := Shared.unit?_of_added? hsorted hmore
          rw [htext, Option.getD_some] at hunit
          rw [ih hsorted' hgiven hunit hresets, List.filterMap_cons, hadded, hmore, hnames,
            String.join_cons, String.append_assoc]

section

variable {uses : List Use} {use : Use} {k : Nat}

/-- A writer that is used was given out by then. -/
theorem given_at (hgiven : UsesGiven 0 uses) (huse : uses[k]? = some use) {writer : Nat}
    (hwriter : use.writer? = some writer) : writer < (createdNames (uses.take k)).length := by
  have hsplit : uses = uses.take k ++ use :: uses.drop (k + 1) := by
    obtain ⟨hlt, rfl⟩ := List.getElem?_eq_some_iff.mp huse
    simp
  rw [hsplit, usesGiven_append, Nat.zero_add] at hgiven
  exact hgiven.2.1 writer hwriter

theorem writer_given (hgiven : UsesGiven 0 uses) (huse : uses[k]? = some use) {writer : Nat}
    (hwriter : use.writer? = some writer) :
    ∃ name, (sharedAfter (uses.take k)).writers[writer]? = some name := by
  rw [(builtBy_sharedAfter _).writers_eq]
  exact ⟨_, List.getElem?_eq_getElem (given_at hgiven huse hwriter)⟩

theorem sharedAfter_take_succ (huse : uses[k]? = some use) :
    sharedAfter (uses.take (k + 1)) = ((sharedAfter (uses.take k)).perform use).2 :=
  stateAfter_take_succ huse

theorem getElem?_replies (huse : uses[k]? = some use) :
    (replies uses)[k]? = some ((sharedAfter (uses.take k)).perform use).1 :=
  getElem?_answersTo huse

theorem exists_reset?_iff {name : String} :
    (∃ use ∈ uses, (use.reset? name).isSome) ↔
      .create name ∈ uses ∨ .install ∈ uses ∧ (name = "List" ∨ name = "Fptr") := by
  constructor
  · rintro ⟨use, huse, hreset⟩
    cases use with
    | create other =>
        rw [Use.reset?] at hreset
        split at hreset
        · next heq => exact .inl (heq ▸ huse)
        · cases hreset
    | install =>
        rw [Use.reset?] at hreset
        split at hreset
        · next hlist => exact .inr ⟨huse, .inl hlist⟩
        · split at hreset
          · next hfptr => exact .inr ⟨huse, .inr hfptr⟩
          · cases hreset
    | write writer bytes => cases hreset
    | flush writer => cases hreset
  · rintro (huse | ⟨huse, rfl | rfl⟩)
    · exact ⟨_, huse, by simp [Use.reset?]⟩
    · exact ⟨_, huse, by simp [Use.reset?]⟩
    · exact ⟨_, huse, by simp [Use.reset?]⟩

end

/-- What a memory is after uses, read off the list of uses. -/
structure Recorded (uses : List Use) : Prop where
  /-- A unit holds the text that it was last set to, and behind it the texts that were
      written through its writers since, in order. -/
  text_since : ∀ name before use after text, uses = before ++ use :: after →
    use.reset? name = some text → (∀ later ∈ after, later.reset? name = none) →
    (sharedAfter uses).memory.unit? name =
      some (text ++ String.join (after.filterMap (Use.added? (createdNames uses) name)))
  text_none : ∀ name, (∀ use ∈ uses, use.reset? name = none) →
    (sharedAfter uses).memory.unit? name = none
  /-- Bytes that are no text in UTF-8 are refused, and nothing changes. -/
  refused : ∀ (k writer : Nat) (bytes : List UInt8), uses[k]? = some (Use.write writer bytes) →
    String.fromUTF8? bytes.toByteArray = none →
    (∃ reason, (replies uses)[k]? = some (.error (.malformed reason))) ∧
      (sharedAfter (uses.take (k + 1))).memory = (sharedAfter (uses.take k)).memory
  accepted : ∀ (k writer : Nat) (bytes : List UInt8) (text : String),
    uses[k]? = some (Use.write writer bytes) → String.fromUTF8? bytes.toByteArray = some text →
    (replies uses)[k]? = some (.ok (.written bytes.length))
  /-- A use changes no unit but those it names. -/
  others_kept : ∀ (k : Nat) (use : Use) (name : String), uses[k]? = some use →
    name ∉ use.named (createdNames (uses.take k)) →
    (sharedAfter (uses.take (k + 1))).memory.unit? name =
      (sharedAfter (uses.take k)).memory.unit? name
  names_iff : ∀ name, name ∈ (sharedAfter uses).memory.unitNames ↔
    .create name ∈ uses ∨ .install ∈ uses ∧ (name = "List" ∨ name = "Fptr")
  names_sorted : (sharedAfter uses).memory.unitNames.Pairwise fun name name' =>
    name.toUTF8.data.toList < name'.toUTF8.data.toList

end Memory

open Memory

/-- For all uses of a memory in any order, through any writers given out before: what its
    units hold, what is refused, which units there are and in which order. -/
theorem units_of_uses (uses : List Use) (hgiven : UsesGiven 0 uses) : Recorded uses where
  text_since name before use after text hsplit hreset hafter := by
    subst hsplit
    have hbuilt := builtBy_sharedAfter before
    obtain ⟨-, -, hgiven⟩ := usesGiven_append.mp hgiven
    have hwriters : ((sharedAfter before).perform use).2.writers =
        createdNames before ++ use.created?.toList := by
      rw [Shared.writers_perform, hbuilt.writers_eq]
    have hnames : createdNames (before ++ use :: after) =
        ((sharedAfter before).perform use).2.writers ++ createdNames after := by
      rw [hwriters, createdNames_append, createdNames_cons, List.append_assoc]
    have hafter := unit?_stateAfter (Shared.sorted_perform hbuilt.sorted use)
      (by rwa [hwriters, List.length_append, ← Nat.zero_add (createdNames before).length])
      (Shared.unit?_of_reset? hreset) hafter
    rw [hnames, ← hafter, sharedAfter, stateAfter_append]
    rfl
  text_none name hreset := by
    rw [unit?_eq_none_iff, (builtBy_sharedAfter uses).mem_unitNames]
    rintro ⟨use, huse, hsome⟩
    rw [hreset use huse] at hsome
    cases hsome
  refused k writer bytes huse hnone := by
    obtain ⟨name, hname⟩ := writer_given hgiven huse rfl
    obtain ⟨reason, hperform⟩ := Shared.perform_write_none hname hnone
    rw [getElem?_replies huse, sharedAfter_take_succ huse, hperform]
    exact ⟨⟨reason, rfl⟩, rfl⟩
  accepted k writer bytes text huse htext := by
    obtain ⟨name, hname⟩ := writer_given hgiven huse rfl
    rw [getElem?_replies huse, Shared.perform_write_text hname htext]
  others_kept k use name huse hname := by
    obtain ⟨hreset, hadded⟩ := Use.unchanged_of_not_named hname
    rw [← (builtBy_sharedAfter _).writers_eq] at hadded
    rw [sharedAfter_take_succ huse, Shared.unit?_of_neither hreset hadded]
  names_iff name := by
    rw [(builtBy_sharedAfter uses).mem_unitNames, exists_reset?_iff]
  names_sorted := (builtBy_sharedAfter uses).sorted.imp Text.toUTF8_lt

/-- A unit is created again while its first writer goes on, bytes that are no text come in
    between, and a support class is written to before and after it is installed. -/
def sharedUses : List Use :=
  [.create "Main", .write 0 [0x61], .create "List", .write 1 [0x61], .install, .write 0 [0xFF],
    .write 1 [0x62], .create "Main", .write 0 [0x62], .flush 1, .write 2 [0xC3, 0xA9]]

theorem units_of_uses_shared : UsesGiven 0 sharedUses ∧ Recorded sharedUses ∧
    (sharedAfter sharedUses).memory.unit? "Main" = some "bé" ∧
    (sharedAfter sharedUses).memory.unit? "List" = some (listSupport.source ++ "b") ∧
    ∃ reason, (replies sharedUses)[5]? = some (.error (.malformed reason)) := by
  have hgiven : UsesGiven 0 sharedUses := by
    simp [sharedUses, UsesGiven, Use.writer?, Use.created?]
  have hrecorded := units_of_uses sharedUses hgiven
  have hnames : createdNames sharedUses = ["Main", "List", "Main"] := rfl
  have hb : String.fromUTF8? [0x62].toByteArray = some "b" :=
    Text.fromUTF8?_eq_some_iff.mpr (Text.decodeUtf8_eq_ok_iff.mpr rfl)
  have haccented : String.fromUTF8? [0xC3, 0xA9].toByteArray = some "é" :=
    Text.fromUTF8?_eq_some_iff.mpr (Text.decodeUtf8_eq_ok_iff.mpr rfl)
  have hmalformed : String.fromUTF8? [0xFF].toByteArray = none := by
    rw [Option.eq_none_iff_forall_ne_some]
    intro text htext
    rw [Text.fromUTF8?_eq_some_iff, Text.decodeUtf8, Text.decodeFrom] at htext
    cases htext
  refine ⟨hgiven, hrecorded, ?_, ?_, (hrecorded.refused 5 0 [0xFF] rfl hmalformed).1⟩
  · rw [hrecorded.text_since "Main" (sharedUses.take 7) _ (sharedUses.drop 8) "" rfl rfl (by decide),
      hnames]
    simp [sharedUses, List.filterMap_cons, Use.added?, hb, haccented]
  · rw [hrecorded.text_since "List" (sharedUses.take 4) .install (sharedUses.drop 5)
      listSupport.source rfl rfl (by decide), hnames]
    simp [sharedUses, List.filterMap_cons, Use.added?, hb]

end JasminGen
