/-
  JasminGen.Proofs.Failures

  How a run on a program can fail, whatever the program is. Its own symbol table has a
  scope for every part of the program that is lowered, and memory refuses nothing, so a
  run fails only with a variable or a struct that is not defined, with a construct that
  has no code, or with a method that takes more slots than there are.

  Main definition: `Failure.Reported`. Main result: `failures_of_run`.
-/

import JasminGen.Proofs.Blame
import JasminGen.Proofs.Symbols

namespace JasminGen

/-- A failure that tells what is wrong with a program: a name that is not defined, or a
    construct without code. -/
inductive Failure.Reported : Failure → Prop where
  | variable (name : String) : Reported (.unresolved .variable name)
  | struct (name : String) : Reported (.unresolved .struct name)
  | unsupported (construct : Construct) : Reported (.unsupported construct)

-- ============================================================================
-- The table of the program itself
-- ============================================================================

variable {program : Program} {options : Options}

theorem Setting.knows_ofProgram (program : Program) (options : Options) :
    (Setting.ofProgram program options).Knows program := by
  refine ⟨?_, ?_, ?_⟩
  · intro s hs
    obtain ⟨id, hid⟩ := SymbolTable.childScope?_struct hs
    obtain ⟨scope, hscope⟩ := SymbolTable.scope_of_childScope? hid
    exact ⟨id, scope, hid, hscope⟩
  · intro f hf
    obtain ⟨id, hid⟩ := SymbolTable.childScope?_function hf
    obtain ⟨scope, hscope⟩ := SymbolTable.scope_of_childScope? hid
    have hsome := (SymbolTable.isSome_function?_ofProgram program f.name).mp (List.mem_map_of_mem hf)
    obtain ⟨signature, hsignature⟩ := Option.isSome_iff_exists.mp hsome
    exact ⟨id, scope, signature, hid, hscope, hsignature⟩
  · have hentry : ∃ id, (SymbolTable.ofProgram program).childScope? .entry entryScopeName = some id :=
      SymbolTable.childScope?_entry
    obtain ⟨id, hid⟩ := hentry
    obtain ⟨scope, hscope⟩ := SymbolTable.scope_of_childScope? hid
    exact ⟨id, scope, hid, hscope⟩

/-- A variable can be looked up from every scope that exists. -/
theorem SymbolTable.lookupVariable_exists {table : SymbolTable} {id : ScopeId} {scope : Scope}
    (hroot : ∃ outer, table.scope root = .ok outer) (hscope : table.scope id = .ok scope)
    (name : String) : ∃ found, table.lookupVariable id name = .ok found := by
  obtain ⟨outer, houter⟩ := hroot
  rw [lookupVariable, hscope]
  dsimp only
  cases scope.find? name with
  | some ty => exact ⟨_, rfl⟩
  | none =>
      cases hparent : parent? scope with
      | none => exact ⟨_, rfl⟩
      | some id =>
          obtain rfl : id = root := by
            unfold parent? at hparent
            split at hparent
            · cases hparent
            · exact (Option.some.inj hparent).symm
          dsimp only
          rw [houter]
          exact ⟨_, rfl⟩

/-- Why an expression has no type. -/
theorem SymbolTable.reported_of_typeOf {table : SymbolTable} {id : ScopeId} {scope : Scope}
    (hroot : ∃ outer, table.scope root = .ok outer) (hscope : table.scope id = .ok scope) :
    ∀ {e : Expr} {failure : Failure}, typeOf.go table id e = .error failure → failure.Reported
  | .ident name, failure, h => by
      rw [typeOf.go, typeOfName, lookupFunction, hscope] at h
      cases hfunction : table.function? name with
      | some signature =>
          rw [hfunction] at h
          cases h
      | none =>
          obtain ⟨found, hfound⟩ := lookupVariable_exists hroot hscope name
          rw [hfunction, hfound] at h
          cases found with
          | some ty => cases h
          | none =>
              cases h
              exact .variable name
  | .group inner, failure, h => reported_of_typeOf hroot hscope (e := inner) h
  | .index list _, failure, h => by
      rw [typeOf.go] at h
      cases hlist : typeOf.go table id list with
      | error reason =>
          rw [hlist] at h
          cases h
          exact reported_of_typeOf hroot hscope hlist
      | ok ty =>
          rw [hlist] at h
          cases ty with
          | list element => cases h
          | _ =>
              cases h
              exact .unsupported _
  | .call target _, failure, h => by
      rw [typeOf.go] at h
      cases htarget : typeOf.go table id target with
      | error reason =>
          rw [htarget] at h
          cases h
          exact reported_of_typeOf hroot hscope htarget
      | ok ty =>
          rw [htarget] at h
          cases ty with
          | fptr params result => cases h
          | _ =>
              cases h
              exact .unsupported _
  | .field _ _, failure, h => by
      cases h
      exact .unsupported _

theorem Scope.Slotless.reported {scope : Scope} {name : String} {failure : Failure}
    (h : scope.Slotless name failure) : failure.Reported := by
  cases h with
  | field => exact .unsupported _
  | unknown => exact .variable name

theorem Defect.reported {id : ScopeId} {scope : Scope} {node : SourceNode} {failure : Failure}
    (hscope : (SymbolTable.ofProgram program).scope id = .ok scope)
    (h : Defect (.ofProgram program options) id scope node failure) : failure.Reported := by
  cases h with
  | untyped h => exact SymbolTable.reported_of_typeOf ⟨_, SymbolTable.scope_root⟩ hscope h
  | read _ h | declared h | assigned h => exact h.reported
  | undefined => exact .struct _
  | _ => exact .unsupported _

/-- Slots aside, a program is to blame only for what is reported. -/
theorem Program.Blames.reported {failure : Failure}
    (h : program.Blames (.ofProgram program options) failure) :
    failure.Reported ∨ (failure = .fault .slotsExhausted ∧
      ∃ o ∈ program.origins, slotLimit ≤ o.slotCount (.ofProgram program options)) := by
  cases h with
  | reserved | voidField => exact .inl (.unsupported _)
  | construct _ hscope _ hdefect => exact .inl (hdefect.reported hscope)
  | slots ho hlimit => exact .inr ⟨rfl, _, ho, hlimit⟩

-- ============================================================================
-- Runs into memory
-- ============================================================================

namespace Session

/-- A session with a unit open or not. -/
inductive Standing : Bool → Session Memory String → Prop where
  | idle {f : Frame} {memory : Memory} {reports : List String} :
      Standing false (idle f memory reports)
  | writing {f : Frame} {memory : Memory} {name text : String} {reports : List String} :
      Standing true (writing f memory name text reports)

/-- Memory refuses no action that keeps to the order of units. -/
theorem perform_standing {action : Action} {opened opened' : Bool} {s : Session Memory String}
    (hs : Standing opened s) (h : action.opened? opened = some opened') (f : Frame) :
    ∃ s', perform action ⟨f, s.output, s.reports⟩ = (.ok (), s') ∧ Standing opened' s' := by
  cases hs with
  | @idle _ memory reports =>
      cases action with
      | openUnit name =>
          cases h
          exact ⟨_, rfl, .writing⟩
      | report line =>
          cases h
          exact ⟨_, rfl, .idle⟩
      | _ => cases h
  | @writing _ memory name text reports =>
      cases action with
      | openUnit name => cases h
      | closeUnit =>
          cases h
          exact ⟨_, rfl, .idle⟩
      | code c =>
          cases h
          exact ⟨_, perform_emission c.emission f reports, .writing⟩
      | emission e =>
          cases h
          exact ⟨_, perform_emission e f reports, .writing⟩
      | report line =>
          cases h
          exact ⟨_, rfl, .writing⟩

theorem performAll_standing (rs : List Request) {opened opened' : Bool}
    {s : Session Memory String} (hs : Standing opened s)
    (h : openedAfter (rs.map Request.action) opened = some opened') :
    ∃ s', performAll rs s = (.ok (), s') ∧ Standing opened' s' := by
  induction rs generalizing opened s with
  | nil =>
      cases h
      exact ⟨s, rfl, hs⟩
  | cons r rest ih =>
      rw [List.map_cons, openedAfter, Option.bind_eq_some_iff] at h
      obtain ⟨after, hafter, hrest⟩ := h
      obtain ⟨s₁, hperform, hs₁⟩ := perform_standing hs hafter r.frame
      obtain ⟨s', hall, hs'⟩ := ih hs₁ hrest
      refine ⟨s', ?_, hs'⟩
      rw [performAll_cons_ok hperform, hall]

/-- A run into memory ends as its computation does. -/
theorem run_ends {α : Type} {S : Setting} {m : Gen α} {s : Session Memory String} {opened : Bool}
    {Q : α → Stage → Prop} {E : Failure → Stage → Prop} (hm : m.Propagates)
    (hs : Standing opened s) (h : Ends m S ⟨s.frame, opened⟩ Q E) :
    ∃ opened', Standing opened' (run S m s).2 ∧
      ((∃ a, (run S m s).1 = .ok a ∧ Q a ⟨(run S m s).2.frame, opened'⟩) ∨
        ∃ failure, (run S m s).1 = .error failure ∧ E failure ⟨(run S m s).2.frame, opened'⟩) := by
  obtain ⟨opened', hopened, hend⟩ := h
  obtain ⟨after, hperform, hafter⟩ := performAll_standing _ hs hopened
  rw [run_performed hm hperform]
  refine ⟨opened', ?_, ?_⟩
  · cases hafter with
    | idle => exact .idle
    | writing => exact .writing
  · cases hresult : (m S s.frame).result with
    | ok a =>
        rw [hresult] at hend
        exact .inl ⟨a, rfl, hend⟩
    | error failure =>
        rw [hresult] at hend
        exact .inr ⟨failure, rfl, hend⟩

end Session

/-- A run on a program into memory succeeds, with no unit open and no scope entered, or it
    fails for a reason that the program is to blame for. -/
theorem generate_blames (program : Program) (options : Options) (memory : Memory) :
    let S := Setting.ofProgram program options
    let run := generate S program memory
    (run.1 = .ok () ∧ run.2.output.unit.isNone ∧ run.2.frame.entered = []) ∨
      ∃ failure, run.1 = .error failure ∧ program.Blames S failure := by
  intro S run
  have hlower := program.lower_ends (Setting.knows_ofProgram program options)
    (s := ⟨.initial, false⟩) ⟨rfl, rfl⟩
  obtain ⟨opened, hstanding, hend⟩ := Session.run_ends program.propagates_lower
    (s := Session.start memory) .idle hlower
  rcases hend with ⟨_, hok, hroot⟩ | ⟨failure, herror, hblame⟩
  · obtain rfl : opened = false := hroot.opened
    refine .inl ⟨hok, ?_, hroot.entered⟩
    change (Session.run S program.lower (Session.start memory)).2.output.unit.isNone
    generalize Session.run S program.lower (Session.start memory) = result at hstanding
    obtain ⟨first, session⟩ := result
    cases hstanding
    rfl
  · exact .inr ⟨failure, herror, hblame⟩

/-- A run on a program into memory succeeds, with no unit open and no scope entered, or it
    fails for a reason that the program is to blame for: an undefined variable or struct, a
    construct without code, or a method that takes more slots than there are. -/
theorem failures_of_run (program : Program) (options : Options) (memory : Memory) :
    let S := Setting.ofProgram program options
    let run := generate S program memory
    (run.1 = .ok () ∧ run.2.output.unit.isNone ∧ run.2.frame.entered = []) ∨
      ∃ failure, run.1 = .error failure ∧ program.Blames S failure ∧
        (failure.Reported ∨ (failure = .fault .slotsExhausted ∧
          ∃ o ∈ program.origins, slotLimit ≤ o.slotCount S)) := by
  intro S run
  rcases generate_blames program options memory with hok | ⟨failure, herror, hblame⟩
  · exact .inl hok
  · exact .inr ⟨failure, herror, hblame, hblame.reported⟩

end JasminGen
