/-
  JasminGen.Proofs.Classes

  Which classes a run leaves in memory. A unit is kept by its name alone, and creating it
  again empties it. So the units in memory are those of the definitions if and only if no
  two definitions have the same name: names of the entry class and of the support classes
  are refused to structs, but two structs may share a name, and then the class of the
  first is lost.

  Main definition: `Memory.setAll`. Main result: `classes_of_run`.
-/

import JasminGen.Compile
import JasminGen.Proofs.FunctionOrder
import JasminGen.Proofs.Lines
import JasminGen.Proofs.UnitTexts

namespace JasminGen

-- ============================================================================
-- Setting several units
-- ============================================================================

namespace Memory

variable {memory : Memory} {name text : String} {entries : List (String × String)}

/-- Give several units a text, one after the other. -/
def setAll (memory : Memory) (entries : List (String × String)) : Memory :=
  entries.foldl (fun m entry => m.set entry.1 entry.2) memory

@[simp] theorem setAll_nil (memory : Memory) : memory.setAll [] = memory := rfl

@[simp] theorem setAll_cons (memory : Memory) (entry : String × String)
    (entries : List (String × String)) :
    memory.setAll (entry :: entries) = (memory.set entry.1 entry.2).setAll entries := rfl

theorem setAll_append (memory : Memory) (entries entries' : List (String × String)) :
    memory.setAll (entries ++ entries') = (memory.setAll entries).setAll entries' :=
  List.foldl_append

/-- The support classes with their sources. -/
def supportTexts : List (String × String) :=
  supportClasses.map fun c => (c.name, c.source)

theorem install_eq_setAll (memory : Memory) : memory.install = memory.setAll supportTexts := by
  rw [setAll, supportTexts, List.foldl_map]
  rfl

theorem unit?_setAll_of_not_mem (h : name ∉ entries.map Prod.fst) :
    (memory.setAll entries).unit? name = memory.unit? name := by
  induction entries generalizing memory with
  | nil => rfl
  | cons entry rest ih =>
      rw [List.map_cons, List.mem_cons, not_or] at h
      rw [setAll_cons, ih h.2, unit?_set_of_ne _ h.1]

/-- If no name comes twice, every unit keeps the text it was given. -/
theorem unit?_setAll (hdistinct : (entries.map Prod.fst).Nodup) (h : (name, text) ∈ entries) :
    (memory.setAll entries).unit? name = some text := by
  induction entries generalizing memory with
  | nil => simp at h
  | cons entry rest ih =>
      obtain ⟨hfirst, hrest⟩ := List.nodup_cons.mp hdistinct
      rw [setAll_cons]
      rcases List.mem_cons.mp h with rfl | h
      · rw [unit?_setAll_of_not_mem hfirst, unit?_set]
      · exact ih hrest h

theorem mem_map_fst_alterIn {other : String} (change : String → String)
    (units : List (String × String)) :
    other ∈ (alterIn name change units).map Prod.fst ↔ other = name ∨ other ∈ units.map Prod.fst := by
  induction units with
  | nil => simp [alterIn]
  | cons unit rest ih =>
      obtain ⟨first, old⟩ := unit
      rw [alterIn]
      split
      · simp
      · split
        · next heq => simp [heq]
        · rw [List.map_cons, List.mem_cons, ih, List.map_cons, List.mem_cons]
          exact or_left_comm

/-- Units stay in increasing order of their names. -/
theorem pairwise_alterIn (change : String → String) {units : List (String × String)}
    (h : (units.map Prod.fst).Pairwise (· < ·)) :
    ((alterIn name change units).map Prod.fst).Pairwise (· < ·) := by
  induction units with
  | nil => simp [alterIn]
  | cons unit rest ih =>
      obtain ⟨first, old⟩ := unit
      obtain ⟨hfirst, hrest⟩ := List.pairwise_cons.mp h
      rw [alterIn]
      split
      · next hlt =>
          refine List.pairwise_cons.mpr ⟨?_, h⟩
          intro other hother
          rcases List.mem_cons.mp hother with rfl | hother
          · exact hlt
          · exact String.lt_trans hlt (hfirst other hother)
      · next hlt =>
          split
          · exact h
          · next hne =>
              have hgt : first < name :=
                Decidable.byContradiction fun hge => hne (String.le_antisymm hge hlt)
              refine List.pairwise_cons.mpr ⟨?_, ih hrest⟩
              intro other hother
              rcases (mem_map_fst_alterIn change rest).mp hother with rfl | hother
              · exact hgt
              · exact hfirst other hother

theorem mem_unitNames_setAll :
    name ∈ (memory.setAll entries).unitNames ↔
      name ∈ entries.map Prod.fst ∨ name ∈ memory.unitNames := by
  induction entries generalizing memory with
  | nil => simp
  | cons entry rest ih =>
      have hset : name ∈ (memory.set entry.1 entry.2).unitNames ↔
          name = entry.1 ∨ name ∈ memory.unitNames :=
        mem_map_fst_alterIn _ memory.units
      rw [setAll_cons, ih, hset, List.map_cons, List.mem_cons]
      exact or_left_comm.trans or_assoc.symm

theorem nodup_unitNames_setAll (h : memory.unitNames.Pairwise (· < ·)) :
    (memory.setAll entries).unitNames.Nodup := by
  induction entries generalizing memory with
  | nil =>
      refine h.imp fun {a b} hlt heq => ?_
      exact String.lt_irrefl b (heq ▸ hlt)
  | cons entry rest ih => exact ih (pairwise_alterIn _ h)

/-- One unit for each of the given ones, and no others, means that no name comes twice. -/
theorem perm_unitNames_setAll (entries : List (String × String)) :
    (empty.setAll entries).unitNames.Perm (entries.map Prod.fst) ↔
      (entries.map Prod.fst).Nodup := by
  have hnodup : (empty.setAll entries).unitNames.Nodup := nodup_unitNames_setAll .nil
  refine ⟨fun hperm => hperm.nodup_iff.mp hnodup, fun hdistinct => ?_⟩
  refine (List.perm_ext_iff_of_nodup hnodup hdistinct).mpr fun name => ?_
  rw [mem_unitNames_setAll]
  exact or_iff_left (by simp [empty, unitNames])

theorem perm_alterIn (change : String → String) {units : List (String × String)}
    (h : name ∉ units.map Prod.fst) :
    (alterIn name change units).Perm ((name, change "") :: units) := by
  induction units with
  | nil => exact .refl _
  | cons unit rest ih =>
      obtain ⟨first, old⟩ := unit
      rw [List.map_cons, List.mem_cons, not_or] at h
      rw [alterIn]
      split
      · exact .refl _
      · rw [if_neg h.1]
        exact ((ih h.2).cons _).trans (.swap _ _ _)

/-- Units that are new are added to those that are there. -/
theorem perm_units_setAll (hdistinct : (entries.map Prod.fst).Nodup)
    (h : ∀ name ∈ entries.map Prod.fst, name ∉ memory.unitNames) :
    (memory.setAll entries).units.Perm (memory.units ++ entries) := by
  induction entries generalizing memory with
  | nil => simp
  | cons entry rest ih =>
      rw [List.map_cons, List.nodup_cons] at hdistinct
      rw [List.map_cons, List.forall_mem_cons] at h
      have hset : (memory.set entry.1 entry.2).units.Perm (entry :: memory.units) :=
        perm_alterIn _ h.1
      have hrest : ∀ name ∈ rest.map Prod.fst, name ∉ (memory.set entry.1 entry.2).unitNames := by
        intro name hname hmem
        rcases (mem_map_fst_alterIn _ memory.units).mp hmem with rfl | hmem
        · exact hdistinct.1 hname
        · exact h.2 name hname hmem
      have hall := (ih hdistinct.2 hrest).trans (hset.append_right rest)
      exact hall.trans List.perm_middle.symm

end Memory

-- ============================================================================
-- Runs
-- ============================================================================

/-- Actions that keep to the order of units set them to what is written inside. -/
theorem UnitsIn.actAll_memory {acts : List Action} {units : List (String × List Action)}
    (h : UnitsIn acts units) (memory : Memory) :
    Output.actAll acts ⟨none, memory⟩ =
      (.ok (), ⟨none, memory.setAll (Program.unitTexts units)⟩) := by
  induction h generalizing memory with
  | nil => rfl
  | report _ ih => exact ih memory
  | @unit name inside rest units hinside _ ih =>
      have hunit := Output.actAll_wholeUnit hinside memory name
      have hsplit : .openUnit name :: (inside ++ .closeUnit :: rest) =
          (.openUnit name :: (inside ++ [.closeUnit])) ++ rest := by simp
      rw [hsplit, Output.actAll_append_ok hunit, ih]
      rfl

section Runs

variable {setting : Setting} {program : Program}

/-- What a run leaves in an empty memory. -/
theorem generated_eq (h : (generate setting program Memory.empty).1 = .ok ()) :
    (generate setting program Memory.empty).2.output.sink =
      Memory.empty.setAll (program.texts setting) := by
  obtain ⟨-, units, hunits, htexts⟩ := Program.lower_units (generate_emits h)
  have hall := hunits.actAll_memory Memory.empty
  have hsink := (Session.run_output_ok (s := Session.start Memory.empty)
    program.propagates_lower hall).1
  rw [← htexts]
  exact congrArg Output.sink hsink

/-- What a run and the installation of the support classes leave in an empty memory. -/
theorem installed_eq (h : (generate setting program Memory.empty).1 = .ok ()) :
    (generate setting program Memory.empty).2.output.sink.install =
      Memory.empty.setAll (program.texts setting ++ Memory.supportTexts) := by
  rw [generated_eq h, Memory.install_eq_setAll, Memory.setAll_append]

/-- The support classes are not among the units of a run. -/
theorem perm_units_installed (h : (generate setting program Memory.empty).1 = .ok ()) :
    (generate setting program Memory.empty).2.output.sink.install.units.Perm
      ((generate setting program Memory.empty).2.output.sink.units ++ Memory.supportTexts) := by
  obtain ⟨hstructs, -⟩ := Program.lower_units (generate_emits h)
  rw [Memory.install_eq_setAll]
  refine Memory.perm_units_setAll (by decide) ?_
  intro name hname
  rw [generated_eq h, Memory.mem_unitNames_setAll, Program.map_fst_texts, List.mem_append]
  have hreserved : name ∈ reservedClasses ∧ name ≠ entryClass := by
    revert name
    decide
  rintro ((hstruct | hentry) | hempty)
  · obtain ⟨s, hs, rfl⟩ := List.mem_map.mp hstruct
    exact hstructs s hs hreserved.1
  · exact hreserved.2 (List.mem_singleton.mp hentry)
  · cases hempty

/-- The names of all classes of a run differ if and only if those of the structs do. -/
theorem nodup_classes (h : (generate setting program Memory.empty).1 = .ok ()) :
    (program.structs.map StructDef.name ++ reservedClasses).Nodup ↔
      (program.structs.map StructDef.name).Nodup := by
  obtain ⟨hnames, -⟩ := Program.lower_units (generate_emits h)
  have hreserved : reservedClasses.Nodup := by decide
  rw [List.nodup_append]
  refine ⟨fun hall => hall.1, fun hdistinct => ⟨hdistinct, hreserved, ?_⟩⟩
  intro name hname other hother
  obtain ⟨s, hs, rfl⟩ := List.mem_map.mp hname
  exact fun heq => hnames s hs (heq ▸ hother)

theorem map_fst_classes (program : Program) (setting : Setting) :
    (program.texts setting ++ Memory.supportTexts).map Prod.fst =
      program.structs.map StructDef.name ++ reservedClasses := by
  rw [List.map_append, Program.map_fst_texts, List.append_assoc]
  rfl

/-- After a run into an empty memory and the installation of the support classes, every
    definition's class is there with exactly the text written while this definition was
    lowered, and there is one unit for each struct besides the entry class and the support
    classes, if and only if no two structs have the same name. -/
theorem classes_of_run (h : (generate setting program Memory.empty).1 = .ok ()) :
    let memory := (generate setting program Memory.empty).2.output.sink.install
    ((∀ name text, (name, text) ∈ program.texts setting → memory.unit? name = some text) ∧
      (∀ c ∈ supportClasses, memory.unit? c.name = some c.source) ∧
      memory.unitNames.Perm (program.structs.map StructDef.name ++ reservedClasses)) ↔
    (program.structs.map StructDef.name).Nodup := by
  intro memory
  have hmemory : memory = _ := installed_eq h
  have hperm := Memory.perm_unitNames_setAll (program.texts setting ++ Memory.supportTexts)
  rw [← hmemory, map_fst_classes, nodup_classes h] at hperm
  refine ⟨fun ⟨_, _, hnames⟩ => hperm.mp hnames, fun hdistinct => ⟨?_, ?_, hperm.mpr hdistinct⟩⟩
  all_goals
    have hall : ((program.texts setting ++ Memory.supportTexts).map Prod.fst).Nodup := by
      rw [map_fst_classes]
      exact (nodup_classes h).mpr hdistinct
    rw [hmemory]
  · intro name text htext
    exact Memory.unit?_setAll hall (List.mem_append_left _ htext)
  · intro c hc
    have hsupport : (c.name, c.source) ∈ Memory.supportTexts := List.mem_map_of_mem hc
    exact Memory.unit?_setAll hall (List.mem_append_right _ hsupport)

end Runs

/-- Two structs, of which one has a field of the other's type. -/
def linkedProgram : Program where
  structs := [⟨"Node", [⟨"value", .int, none⟩, ⟨"next", .struct "Tail", none⟩]⟩, ⟨"Tail", []⟩]
  body := []
  functions := []

theorem linkedProgram_lowers :
    (linkedProgram.lower (.ofProgram linkedProgram {}) .initial).result = .ok () := by
  decide +kernel

theorem linkedProgram_classes :
    linkedProgram.structs.map StructDef.name ++ reservedClasses =
      ["Node", "Tail", "Main", "List", "Fptr"] := rfl

theorem classes_of_linkedProgram :
    let run := generate (.ofProgram linkedProgram {}) linkedProgram Memory.empty
    let memory := run.2.output.sink.install
    (∀ name text, (name, text) ∈ linkedProgram.texts (.ofProgram linkedProgram {}) →
        memory.unit? name = some text) ∧
      (∀ c ∈ supportClasses, memory.unit? c.name = some c.source) ∧
      memory.unitNames.Perm ["Node", "Tail", "Main", "List", "Fptr"] := by
  have hrun := generate_memory_ok Memory.empty linkedProgram_lowers
  have hdistinct : (linkedProgram.structs.map StructDef.name).Nodup := by decide
  rw [← linkedProgram_classes]
  exact (classes_of_run hrun).mpr hdistinct

/-- Two structs of one name, of which only the first has a field. -/
def sharedNameProgram : Program where
  structs := [⟨"P", [⟨"a", .int, none⟩]⟩, ⟨"P", []⟩]
  body := []
  functions := []

theorem sharedNameProgram_lowers :
    (sharedNameProgram.lower (.ofProgram sharedNameProgram {}) .initial).result = .ok () := by
  decide +kernel

/-- The texts of its classes. -/
def sharedNameTexts : List (String × String) :=
  sharedNameProgram.texts (.ofProgram sharedNameProgram {})

/-- The first class has more lines than the second. -/
theorem sharedNameTexts_eq : ∃ first second entry, first ≠ second ∧
    sharedNameTexts = [("P", first), ("P", second), ("Main", entry)] := by
  refine ⟨_, _, _, ?_, rfl⟩
  intro heq
  have hlines := congrArg (fun text => ((Text.lines text.toList).map Text.trim).length) heq
  simp only [Gen.written, lines_writtenBy] at hlines
  exact absurd hlines (by decide +kernel)

/-- The class of the first struct is lost: what is kept under its name is the text of the
    second. -/
theorem sharedName_loses_class :
    let run := generate (.ofProgram sharedNameProgram {}) sharedNameProgram Memory.empty
    let memory := run.2.output.sink.install
    run.1 = .ok () ∧ (∃ first second entry, first ≠ second ∧
        sharedNameTexts = [("P", first), ("P", second), ("Main", entry)] ∧
        memory.unit? "P" = some second) ∧
      ¬ memory.unitNames.Perm ["P", "P", "Main", "List", "Fptr"] := by
  have hrun := generate_memory_ok Memory.empty sharedNameProgram_lowers
  obtain ⟨first, second, entry, hne, htexts⟩ := sharedNameTexts_eq
  have hmemory := installed_eq hrun
  rw [← sharedNameTexts, htexts] at hmemory
  refine ⟨hrun, ⟨first, second, entry, hne, htexts, ?_⟩, ?_⟩
  · have hlater : ["P", "Main", "List", "Fptr"].Nodup := by decide
    rw [hmemory, List.cons_append, Memory.setAll_cons]
    exact Memory.unit?_setAll hlater List.mem_cons_self
  · have htwice : ¬ ["P", "P", "Main", "List", "Fptr"].Nodup := by decide
    rw [hmemory]
    exact fun hperm => htwice ((Memory.perm_unitNames_setAll _).mp hperm)

end JasminGen
