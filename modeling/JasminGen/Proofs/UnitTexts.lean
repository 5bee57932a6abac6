/-
  JasminGen.Proofs.UnitTexts

  The units of a program and their texts. A program that is lowered opens one unit for each
  of its structs, in order, and then the unit of the entry class. Each is closed before the
  next one is opened, and what is written into it is what lowering its definition writes.

  Main definitions: `UnitsIn`, `Program.texts`. Main result: `Program.lower_units`.
-/

import JasminGen.Proofs.Memory

namespace JasminGen

open Gen

-- ============================================================================
-- Actions unit by unit
-- ============================================================================

/-- `UnitsIn acts units`: the actions open the units in this order, close each of them
    before the next one, and ask for the listed actions inside. -/
inductive UnitsIn : List Action → List (String × List Action) → Prop where
  | nil : UnitsIn [] []
  | report {line : String} {rest : List Action} {units : List (String × List Action)} :
      UnitsIn rest units → UnitsIn (.report line :: rest) units
  | unit {name : String} {inside rest : List Action} {units : List (String × List Action)} :
      InUnit inside → UnitsIn rest units →
      UnitsIn (.openUnit name :: (inside ++ .closeUnit :: rest)) ((name, inside) :: units)

namespace UnitsIn

variable {acts acts' reports inside : List Action} {units units' : List (String × List Action)}

theorem append (h : UnitsIn acts units) (h' : UnitsIn acts' units') :
    UnitsIn (acts ++ acts') (units ++ units') := by
  induction h with
  | nil => exact h'
  | report _ ih => exact .report ih
  | unit hinside _ ih => simpa using UnitsIn.unit hinside ih

theorem of_reports (h : Reports reports) : UnitsIn reports [] := by
  induction reports with
  | nil => exact .nil
  | cons action rest ih =>
      obtain ⟨⟨line, rfl⟩, hrest⟩ := List.forall_mem_cons.mp h
      exact .report (ih hrest)

/-- One unit, with reports before it. -/
theorem single (name : String) (hreports : Reports reports) (hinside : InUnit inside) :
    UnitsIn (reports ++ .openUnit name :: (inside ++ [.closeUnit])) [(name, inside)] :=
  (of_reports hreports).append (.unit hinside .nil)

/-- All that is written is written inside of the units. -/
theorem writtenBy_eq (h : UnitsIn acts units) :
    writtenBy acts = String.join (units.map fun unit => writtenBy unit.2) := by
  induction h with
  | nil => rfl
  | @report line rest units _ ih =>
      have hwritten : writtenBy (.report line :: rest) = "" ++ writtenBy rest :=
        writtenBy_append [.report line] rest
      rw [hwritten, String.empty_append, ih]
  | @unit name inside rest units _ _ ih =>
      have hopen : writtenBy (.openUnit name :: (inside ++ .closeUnit :: rest)) =
          "" ++ writtenBy (inside ++ .closeUnit :: rest) :=
        writtenBy_append [.openUnit name] _
      have hclose : writtenBy (.closeUnit :: rest) = "" ++ writtenBy rest :=
        writtenBy_append [.closeUnit] rest
      rw [hopen, writtenBy_append, hclose, ih]
      simp

end UnitsIn

-- ============================================================================
-- Definitions
-- ============================================================================

section Lowering

variable {S : Setting} {f f' : Frame} {u : Unit} {acts : List Action}

/-- A struct has one unit, under its name, which is not that of another class. -/
theorem StructDef.lower_unit {s : StructDef} (h : Emits s.lower S f u acts f') :
    s.name ∉ reservedClasses ∧ ∃ inside, UnitsIn acts [(s.name, inside)] := by
  obtain ⟨a⟩ := StructDef.lower_actions h
  have hunit := UnitsIn.single s.name a.before_reports a.inside_inUnit
  rw [← a.acts_eq] at hunit
  exact ⟨a.unreserved, a.inside, hunit⟩

/-- The entry class has one unit. -/
theorem lowerEntry_unit {body : List Stmt} {functions : List FunctionDef} (hf : f.entered = [])
    (h : Emits (lowerEntry body functions) S f u acts f') :
    ∃ inside, UnitsIn acts [(entryClass, inside)] := by
  obtain ⟨e⟩ := lowerEntry_actions hf h
  rw [e.acts_eq]
  exact ⟨e.inside, .single entryClass e.before_reports e.inside_inUnit⟩

end Lowering

-- ============================================================================
-- Programs
-- ============================================================================

/-- The text that a computation writes, whichever units it writes into. -/
def Gen.written {α : Type} (m : Gen α) (S : Setting) (f : Frame) : String :=
  writtenBy ((m S f).requests.map Request.action)

namespace Program

/-- The names of structs, each with the text that is written while this very struct is
    lowered. Each is lowered from the frame that the one before it leaves. -/
def structTexts (S : Setting) : List StructDef → Frame → List (String × String)
  | [], _ => []
  | s :: rest, f => (s.name, s.lower.written S f) :: structTexts S rest (s.lower S f).frame

/-- The names of a program's classes, each with the text that is written while its
    definition is lowered. -/
def texts (program : Program) (S : Setting) : List (String × String) :=
  structTexts S program.structs .initial ++
    [(entryClass, (lowerEntry program.body program.functions).written S
      (lowerStructs program.structs S .initial).frame)]

theorem map_fst_structTexts (S : Setting) (structs : List StructDef) (f : Frame) :
    (structTexts S structs f).map Prod.fst = structs.map StructDef.name := by
  induction structs generalizing f with
  | nil => rfl
  | cons s rest ih => rw [structTexts, List.map_cons, List.map_cons, ih]

@[simp] theorem map_fst_texts (program : Program) (S : Setting) :
    (program.texts S).map Prod.fst = program.structs.map StructDef.name ++ [entryClass] := by
  rw [texts, List.map_append, map_fst_structTexts, List.map_singleton]

/-- Units with the texts that are written into them. -/
def unitTexts (units : List (String × List Action)) : List (String × String) :=
  units.map fun unit => (unit.1, writtenBy unit.2)

theorem unitTexts_append (units units' : List (String × List Action)) :
    unitTexts (units ++ units') = unitTexts units ++ unitTexts units' :=
  List.map_append

variable {S : Setting} {f f' : Frame} {u : Unit} {acts : List Action}

/-- If a definition has one unit, its text is all that the definition writes. -/
theorem unitTexts_single {α : Type} {m : Gen α} {a : α} {name : String} {inside : List Action}
    (h : Emits m S f a acts f') (hunit : UnitsIn acts [(name, inside)]) :
    unitTexts [(name, inside)] = [(name, m.written S f)] := by
  have hwritten : m.written S f = writtenBy inside := by
    rw [Gen.written, h.2.1, hunit.writtenBy_eq]
    exact String.empty_append
  rw [unitTexts, List.map_singleton, hwritten]

theorem lowerStructs_units : ∀ (structs : List StructDef) {f f' : Frame} {acts : List Action},
    Emits (lowerStructs structs) S f u acts f' →
      (∀ s ∈ structs, s.name ∉ reservedClasses) ∧
        ∃ units, UnitsIn acts units ∧ unitTexts units = structTexts S structs f
  | [], f, f', acts, h => by
      obtain ⟨-, rfl, -⟩ := emits_pure.mp h
      exact ⟨by simp, [], .nil, rfl⟩
  | s :: rest, f, f', acts, h => by
      rw [lowerStructs, emits_bind] at h
      obtain ⟨_, first, f₁, second, hs, rfl, hrest⟩ := h
      obtain ⟨hname, inside, hunit⟩ := s.lower_unit hs
      obtain ⟨hnames, units, hunits, htexts⟩ := lowerStructs_units rest hrest
      refine ⟨List.forall_mem_cons.mpr ⟨hname, hnames⟩, _, hunit.append hunits, ?_⟩
      rw [unitTexts_append, unitTexts_single hs hunit, htexts, structTexts, hs.2.2]
      rfl

/-- A program that is lowered writes its structs in order and then the entry class, each into
    a unit of its own. No struct has the name of another class. -/
theorem lower_units {program : Program} (h : Emits program.lower S .initial u acts f') :
    (∀ s ∈ program.structs, s.name ∉ reservedClasses) ∧
      ∃ units, UnitsIn acts units ∧ unitTexts units = program.texts S := by
  rw [lower, emits_bind] at h
  obtain ⟨_, first, f₁, second, hstructs, rfl, hentry⟩ := h
  obtain ⟨-, -, hentered, -⟩ := lowerStructs_methods program.structs rfl hstructs
  obtain ⟨hnames, units, hunits, htexts⟩ := lowerStructs_units program.structs hstructs
  obtain ⟨inside, hunit⟩ := lowerEntry_unit hentered hentry
  refine ⟨hnames, _, hunits.append hunit, ?_⟩
  rw [unitTexts_append, unitTexts_single hentry hunit, htexts, texts, hstructs.2.2]

end Program

end JasminGen
