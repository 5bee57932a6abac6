/-
  JasminGen.Proofs.Context

  What holds of a session all along, whatever is done with it. Operations follow each
  other in any order and on any arguments, and one that fails does not stop the others.
  The scopes that are entered always exist, so no look-up faults. What stands inside of a
  method leaves the scopes and the open unit alone and keeps the slots that names have. A
  definition leaves the scopes as they were, or if it fails one more than there were.

  Main definitions: `SymbolTable.Declared`, `Operation`, `Session.WellScoped`. Main result:
  `wellScoped_after`.
-/

import JasminGen.Proofs.Actions
import JasminGen.Proofs.Failures
import JasminGen.Proofs.Lowering.Units

namespace JasminGen

open Gen

-- ============================================================================
-- Declared tables
-- ============================================================================

/-- Tables that come about by declarations, from nothing or from a program. -/
inductive SymbolTable.Declared : SymbolTable → Prop where
  | empty : Declared .empty
  | program (program : Program) : Declared (.ofProgram program)
  | function {table : SymbolTable} (signature : Signature) :
      Declared table → Declared (table.declareFunction signature).2
  | struct {table : SymbolTable} (layout : Layout) :
      Declared table → Declared (table.declareStruct layout).2
  | entry {table : SymbolTable} : Declared table → Declared table.declareEntry.2
  | binding {table table' : SymbolTable} {id : ScopeId} {b : Binding} :
      Declared table → table.declareVariable id b = .ok table' → Declared table'

namespace SymbolTable

theorem Declared.scopes_pos {table : SymbolTable} (h : table.Declared) :
    0 < table.scopeList.length := by
  induction h with
  | empty => exact Nat.zero_lt_one
  | program program =>
      rw [scopes_ofProgram]
      exact Nat.zero_lt_succ _
  | function signature _ ih | struct layout _ ih | entry _ ih =>
      rw [scopeList, Array.length_toList] at ih ⊢
      exact Nat.lt_of_lt_of_le ih (by simp [declareFunction, declareStruct, declareEntry, addScope,
        Indexed.push])
  | @binding table table' id b _ hvariable ih =>
      rw [declareVariable, Indexed.modify] at hvariable
      by_cases hid : Index.toNat id < table.scopes.size
      · rw [if_pos hid] at hvariable
        cases hvariable
        simpa [scopeList] using ih
      · rw [if_neg hid] at hvariable
        cases hvariable

theorem Declared.root_exists {table : SymbolTable} (h : table.Declared) :
    ∃ scope, table.scope root = .ok scope :=
  scope_ofNat_lt h.scopes_pos

end SymbolTable

-- ============================================================================
-- Frames whose scopes exist
-- ============================================================================

/-- The scopes that lookups may start from, from the root to the innermost. -/
def Frame.scopeStack (f : Frame) : List ScopeId :=
  SymbolTable.root :: f.entered.reverse

/-- All scopes of the frame exist. -/
def Frame.Rooted (table : SymbolTable) (f : Frame) : Prop :=
  ∀ id ∈ f.scopeStack, ∃ scope, table.scope id = .ok scope

theorem Frame.activeScope_mem (f : Frame) : f.activeScope ∈ f.scopeStack := by
  rw [activeScope, scopeStack]
  cases f.entered with
  | nil => simp
  | cons id outer => simp

namespace Frame

variable {table : SymbolTable} {f g : Frame}

theorem scopeStack_eq (h : g.entered = f.entered) : g.scopeStack = f.scopeStack := by
  rw [scopeStack, scopeStack, h]

theorem scopeStack_cons {id : ScopeId} (h : g.entered = id :: f.entered) :
    g.scopeStack = f.scopeStack ++ [id] := by
  rw [scopeStack, scopeStack, h, List.reverse_cons, List.cons_append]

theorem Rooted.of_eq (hf : f.Rooted table) (h : g.entered = f.entered) : g.Rooted table := by
  rwa [Rooted, scopeStack_eq h]

theorem Rooted.of_cons (hf : f.Rooted table) {id : ScopeId} (h : g.entered = id :: f.entered)
    (hid : ∃ scope, table.scope id = .ok scope) : g.Rooted table := by
  rw [Rooted, scopeStack_cons h]
  exact List.forall_mem_append.mpr ⟨hf, List.forall_mem_singleton.mpr hid⟩

theorem Rooted.of_tail (hf : f.Rooted table) {id : ScopeId} (h : f.entered = id :: g.entered) :
    g.Rooted table := by
  rw [Rooted, scopeStack_cons h] at hf
  exact (List.forall_mem_append.mp hf).1

/-- One more scope is entered in `g` than in `f`, and it exists. -/
def Deeper (table : SymbolTable) (f g : Frame) : Prop :=
  ∃ id, g.entered = id :: f.entered ∧ ∃ scope, table.scope id = .ok scope

theorem Rooted.of_deeper (hf : f.Rooted table) (h : f.Deeper table g) : g.Rooted table := by
  obtain ⟨id, hentered, hid⟩ := h
  exact hf.of_cons hentered hid

theorem Rooted.active (hf : f.Rooted table) : ∃ scope, table.scope f.activeScope = .ok scope :=
  hf _ f.activeScope_mem

theorem Rooted.root (hf : f.Rooted table) : ∃ scope, table.scope SymbolTable.root = .ok scope :=
  hf _ List.mem_cons_self

end Frame

-- ============================================================================
-- Operations
-- ============================================================================

/-- What can be lowered inside of a method. -/
inductive BodyTask where
  | expression (e : Expr)
  | statement (s : Stmt)
  | block (body : List Stmt)

def BodyTask.lower : BodyTask → Gen Unit
  | .expression e => e.lower
  | .statement s => s.lower
  | .block body => Stmt.lowerAll body

/-- What can be lowered outside of methods. -/
inductive Definition where
  | struct (s : StructDef)
  | function (fn : FunctionDef)
  | entry (body : List Stmt) (functions : List FunctionDef)
  | program (program : Program)

def Definition.lower : Definition → Gen Unit
  | .struct s => s.lower
  | .function fn => fn.lower
  | .entry body functions => lowerEntry body functions
  | .program p => p.lower

/-- What can be done with a session. Texts, instructions, labels and comments are all
    written by `emit`. -/
inductive Operation where
  | openUnit (kind : UnitKind) (name : String)
  | closeUnit
  | enterScope (kind : ScopeKind) (name : String)
  | leaveScope
  | beginMethod (params : List String)
  | slotOf (name : String)
  | freshSlot
  | freshLabel
  | emit (e : Emission)
  | body (task : BodyTask)
  | define (d : Definition)

/-- The computation of an operation; slots and labels that it gives are dropped. -/
def Operation.perform : Operation → Gen Unit
  | .openUnit kind name => Gen.openUnit kind name
  | .closeUnit => Gen.closeUnit
  | .enterScope kind name => Gen.enterScope kind name
  | .leaveScope => Gen.leaveScope
  | .beginMethod params => Gen.beginMethod params
  | .slotOf name => do
    let _ ← Gen.slotOf name
    Gen.pure ()
  | .freshSlot => do
    let _ ← Gen.freshSlot
    Gen.pure ()
  | .freshLabel => do
    let _ ← Gen.freshLabel
    Gen.pure ()
  | .emit e => Gen.emit e
  | .body task => task.lower
  | .define d => d.lower

section

variable {σ ω : Type} [Sink σ ω]

/-- A session after operations, whether they succeed or fail. -/
def Session.after (S : Setting) (ops : List Operation) (s : Session σ ω) : Session σ ω :=
  ops.foldl (fun s op => (run S op.perform s).2) s

/-- A fault that is possible where all scopes exist: all slots are taken, or the oracle
    has a fault of its own. -/
def Setting.Faults (S : Setting) (fault : Fault) : Prop :=
  fault = .slotsExhausted ∨
    ∃ id scope e, S.symbols.scope id = .ok scope ∧ S.oracle id e = .error (.fault fault)

/-- What holds of a session at any time, and what operations do to it. -/
structure Session.WellScoped (S : Setting) (s : Session σ ω) : Prop where
  bottom : s.frame.scopeStack.head? = some SymbolTable.root
  exist : ∀ id ∈ s.frame.scopeStack, ∃ scope, S.symbols.scope id = .ok scope
  /-- No look-up from the active scope faults. -/
  lookup : ∀ name,
    (∃ found, S.symbols.lookupFunction s.frame.activeScope name = .ok found) ∧
      (∃ found, S.symbols.lookupStruct s.frame.activeScope name = .ok found) ∧
      ∃ found, S.symbols.lookupVariable s.frame.activeScope name = .ok found
  faults : ∀ (op : Operation) fault, (run S op.perform s).1 = .error (.fault fault) → S.Faults fault
  faults_typeOf : S.oracle = S.symbols.typeOf → ∀ (op : Operation) fault,
    (run S op.perform s).1 = .error (.fault fault) → fault = .slotsExhausted
  /-- What stands inside of a method keeps the scopes, the open unit and the slots. -/
  body : ∀ task : BodyTask, let after := (run S task.lower s).2
    after.frame.scopeStack = s.frame.scopeStack ∧ after.output.unit = s.output.unit ∧
      ∀ name slot, s.frame.slots.get? name = some slot →
        after.frame.slots.get? name = some slot
  /-- A definition keeps the scopes if it succeeds, and adds at most one if it fails. -/
  define : ∀ d : Definition, let after := run S d.lower s
    (after.1 = .ok () → after.2.frame.scopeStack = s.frame.scopeStack) ∧
      ∃ pushed, pushed.length ≤ 1 ∧ after.2.frame.scopeStack = s.frame.scopeStack ++ pushed

end

-- ============================================================================
-- What operations do to frames
-- ============================================================================

section

variable {S : Setting} {f₀ : Frame}

theorem enterScope_run (kind : ScopeKind) (name : String) (S : Setting) (f : Frame) :
    enterScope kind name S f = match S.symbols.childScope? kind name with
      | some id => .done (.ok ()) ⟨id :: f.entered, f.slots, f.nextLabel⟩
      | none => .done (.error (.error (.unknownScope name))) f := by
  have hread : enterScope kind name S f = (match S.symbols.childScope? kind name with
      | some id => setFrame ⟨id :: f.entered, f.slots, f.nextLabel⟩
      | none => fail (.error (.unknownScope name))) S f := rfl
  rw [hread]
  cases S.symbols.childScope? kind name <;> rfl

theorem leaveScope_run (S : Setting) (f : Frame) :
    leaveScope S f = match f.entered with
      | [] => .done (.error (.error .scopeUnderflow)) f
      | _ :: outer => .done (.ok ()) ⟨outer, f.slots, f.nextLabel⟩ := by
  obtain ⟨entered, slots, l⟩ := f
  cases entered <;> rfl

theorem beginMethod_run (params : List String) (S : Setting) (f : Frame) :
    beginMethod params S f = match SlotTable.forMethod params with
      | .ok slots => .done (.ok ()) ⟨f.entered, slots, f.nextLabel⟩
      | .error fault => .done (.error (.fault fault)) f := by
  rw [beginMethod]
  cases SlotTable.forMethod params <;> rfl

/-- A failure that is an error, or a fault that is possible. -/
def Setting.Admits (S : Setting) (failure : Failure) : Prop :=
  ∀ fault, failure = .fault fault → S.Faults fault

theorem Setting.admits_error (reason : GenError) : S.Admits (.error reason) := by
  intro fault h
  cases h

theorem Setting.admits_exhausted : S.Admits (.fault .slotsExhausted) := by
  intro fault h
  cases h
  exact .inl rfl

/-- A scope that exists is no reason to fail. -/
theorem Setting.admits_scope {id : ScopeId} {fault : Fault}
    (hid : ∃ scope, S.symbols.scope id = .ok scope) (h : S.symbols.scope id = .error fault) :
    S.Admits (.fault fault) := by
  obtain ⟨scope, hscope⟩ := hid
  cases hscope.symm.trans h

theorem Setting.admits_oracle {id : ScopeId} {e : Expr} {failure : Failure}
    (hid : ∃ scope, S.symbols.scope id = .ok scope) (h : S.oracle id e = .error failure) :
    S.Admits failure := by
  obtain ⟨scope, hscope⟩ := hid
  rintro fault rfl
  exact .inr ⟨id, scope, e, hscope, h⟩

/-- Inside of a method the scopes stay as they are, names keep their slots, and nothing but
    code and comments is asked for. -/
def Invariant.body (S : Setting) (f₀ : Frame) (h₀ : f₀.Rooted S.symbols) : Invariant S where
  Holds f := f.entered = f₀.entered ∧ f₀.slots.Extends f.slots
  Meets f := f.entered = f₀.entered ∧ f₀.slots.Extends f.slots
  Asks r := r.action.InBody ∧ r.frame.entered = f₀.entered ∧ f₀.slots.Extends r.frame.slots
  Fails := S.Admits
  meets := id
  scope hf _ h := Setting.admits_scope (h₀.of_eq hf.1).active h
  oracle hf _ _ h := Setting.admits_oracle (h₀.of_eq hf.1).active h
  extended hf _ hslots := ⟨hf.1, hf.2.trans hslots⟩
  labelled hf := hf
  code hf c := ⟨.inl ⟨c, rfl⟩, hf⟩
  comment hf t := ⟨.inr ⟨t, rfl⟩, hf⟩
  error := Setting.admits_error
  exhausted := Setting.admits_exhausted

/-- In a definition one more scope is entered than before it. -/
def Invariant.definition (S : Setting) (f₀ : Frame) (h₀ : f₀.Rooted S.symbols) : Invariant S where
  Holds f := f₀.Deeper S.symbols f
  Meets f := f.entered = f₀.entered ∨ f₀.Deeper S.symbols f
  Asks r := r.frame.entered = f₀.entered ∨ f₀.Deeper S.symbols r.frame
  Fails := S.Admits
  meets := .inr
  scope hf _ h := Setting.admits_scope (h₀.of_deeper hf).active h
  oracle hf _ _ h := Setting.admits_oracle (h₀.of_deeper hf).active h
  extended hf _ _ := hf
  labelled hf := hf
  code hf _ := hf
  comment hf _ := .inr hf
  error := Setting.admits_error
  exhausted := Setting.admits_exhausted

def definitionCoupling (S : Setting) (f₀ : Frame) (h₀ : f₀.Rooted S.symbols) :
    ProgramCoupling where
  toCoupling := (Invariant.definition S f₀ h₀).coupling
  Outside f f' := f' = f ∧ f.entered = f₀.entered
  Inside f f' := f' = f ∧ f₀.Deeper S.symbols f
  meet_outside h := ⟨h.1, .inl h.2⟩
  meet_inside h := ⟨h.1, .inr h.2⟩
  enter := by
    rintro f f' ⟨rfl, hentered⟩ kind name
    change (S.symbols.childScope? kind name = none ∧ S.symbols.childScope? kind name = none) ∨ _
    cases hid : S.symbols.childScope? kind name with
    | none => exact .inl ⟨rfl, rfl⟩
    | some id =>
        have hscope := SymbolTable.scope_of_childScope? hid
        exact .inr ⟨id, id, hid, hid, rfl, id, congrArg (id :: ·) hentered, hscope⟩
  scope_inside h := (Invariant.definition S f₀ h₀).coupling.scope_agree h
  begin := by
    rintro f f' ⟨rfl, hf⟩ params slots -
    exact ⟨rfl, hf⟩
  leave := by
    rintro f f' ⟨rfl, id, hentered, -⟩
    exact ⟨id, id, f₀.entered, f₀.entered, hentered, hentered, rfl, rfl⟩
  asks_open h _ := List.forall_mem_singleton.mpr h.2
  asks_close h := List.forall_mem_singleton.mpr h.2
  asks_report h _ := List.forall_mem_singleton.mpr h.2

theorem BodyTask.lower_body (C : Coupling) (task : BodyTask) : C.Body task.lower task.lower := by
  cases task with
  | expression e => exact C.expr_lower e
  | statement s => exact C.stmt_lower s
  | block body => exact C.stmts_lower body

theorem Definition.lower_pairs (C : ProgramCoupling) (d : Definition) :
    C.Pairs C.Outside d.lower d.lower C.Outside := by
  cases d with
  | struct s => exact C.struct_lower s
  | function fn => exact C.function_lower fn
  | entry body functions => exact C.entry_lower body functions
  | program p => exact C.program_lower p

theorem BodyTask.propagates_lower (task : BodyTask) : task.lower.Propagates := by
  cases task with
  | expression e => exact e.propagates_lower
  | statement s => exact s.propagates_lower
  | block body => exact Stmt.propagates_lowerAll body

theorem Definition.propagates_lower (d : Definition) : d.lower.Propagates := by
  cases d with
  | struct s => exact s.propagates_lower
  | function fn => exact fn.propagates_lower
  | entry body functions => exact propagates_lowerEntry body functions
  | program p => exact p.propagates_lower

/-- Every operation ends with the first of its requests that is refused. -/
theorem Operation.propagates_perform (op : Operation) : op.perform.Propagates := by
  cases op with
  | openUnit kind name => exact .openUnit kind name
  | closeUnit => exact .closeUnit
  | enterScope kind name => exact .enterScope kind name
  | leaveScope => exact .leaveScope
  | beginMethod params => exact .beginMethod params
  | slotOf name => exact (Propagates.slotOf name).bind fun _ => .pure ()
  | freshSlot => exact Propagates.freshSlot.bind fun _ => .pure ()
  | freshLabel => exact Propagates.freshLabel.bind fun _ => .pure ()
  | emit e => exact .emit e
  | body task => exact task.propagates_lower
  | define d => exact d.propagates_lower

end

-- ============================================================================
-- Runs
-- ============================================================================

namespace Output

variable {σ ω : Type}

theorem useSink_unit {α : Type} (use : Attempt OutputError σ α) (out : Output σ ω) :
    (useSink use out).2.unit = out.unit := by
  rw [useSink_eq]

/-- Computations that keep the open unit can follow each other. -/
theorem bind_unit {α β : Type} {use : Attempt GenError (Output σ ω) α}
    {next : α → Attempt GenError (Output σ ω) β}
    (huse : ∀ out, (use out).2.unit = out.unit)
    (hnext : ∀ a out, (next a out).2.unit = out.unit) (out : Output σ ω) :
    ((use >>= next) out).2.unit = out.unit := by
  have hfirst := huse out
  rcases Attempt.bind_cases use next out with ⟨reason, out₁, h, hbind⟩ | ⟨a, out₁, h, hbind⟩
  · rw [h] at hfirst
    rw [hbind]
    exact hfirst
  · rw [h] at hfirst
    rw [hbind, hnext a out₁]
    exact hfirst

variable [Sink σ ω]

theorem writeLines_unit (writer : ω) (lines : List String) (out : Output σ ω) :
    (writeLines writer lines out).2.unit = out.unit := by
  induction lines generalizing out with
  | nil => rfl
  | cons line rest ih => exact bind_unit (useSink_unit _) (fun _ => ih) out

theorem emitText_unit (text : String) (out : Output σ ω) :
    (emitText text out).2.unit = out.unit := by
  refine bind_unit (fun _ => rfl) (fun current => ?_) out
  cases current.unit with
  | none => exact fun _ => rfl
  | some u => exact bind_unit (writeLines_unit u.writer _) fun _ => useSink_unit _

theorem emitTexts_unit (texts : List String) (out : Output σ ω) :
    (emitTexts texts out).2.unit = out.unit := by
  induction texts generalizing out with
  | nil => rfl
  | cons text rest ih => exact bind_unit (emitText_unit text) (fun _ => ih) out

/-- Code and comments keep the open unit. -/
theorem actAll_unit {acts : List Action} (h : ∀ action ∈ acts, action.InBody)
    (out : Output σ ω) : (actAll acts out).2.unit = out.unit := by
  induction acts generalizing out with
  | nil => rfl
  | cons action rest ih =>
      obtain ⟨haction, hrest⟩ := List.forall_mem_cons.mp h
      have hact : ∀ out : Output σ ω, (act action out).2.unit = out.unit := by
        rcases haction with ⟨c, rfl⟩ | ⟨t, rfl⟩
        · exact emitTexts_unit _
        · exact emitTexts_unit _
      exact bind_unit hact (fun _ => ih hrest) out

end Output

namespace Session

open Coupling (Body)

variable {σ ω : Type} [Sink σ ω] {S : Setting} {s : Session σ ω}

/-- What holds of the frames of a computation holds of the frame of its run. -/
theorem run_keeps {α : Type} {m : Gen α} {A : Frame → Prop} (hprop : m.Propagates)
    (hasks : ∀ r ∈ (m S s.frame).requests, A r.frame) (hend : A (m S s.frame).frame)
    (hfails : ∀ failure, (m S s.frame).result = .error failure → S.Admits failure) :
    A (run S m s).2.frame ∧
      ∀ fault, (run S m s).1 = .error (.fault fault) → S.Faults fault := by
  rcases run_frame hprop S s with ⟨hresult, hframe⟩ | ⟨r, hr, reason, hresult, hframe⟩
  · rw [hresult, hframe]
    exact ⟨hend, fun fault h => hfails _ h fault rfl⟩
  · rw [hresult, hframe]
    exact ⟨hasks r hr, fun fault h => by cases h⟩

/-- What stands inside of a method keeps the scopes, the slots and the open unit. -/
theorem run_body {m : Gen Unit} (hprop : m.Propagates) (hm : ∀ C : Coupling, C.Body m m)
    (hs : s.frame.Rooted S.symbols) :
    (run S m s).2.frame.entered = s.frame.entered ∧
      s.frame.slots.Extends (run S m s).2.frame.slots ∧
      (run S m s).2.output.unit = s.output.unit ∧
      ∀ fault, (run S m s).1 = .error (.fault fault) → S.Faults fault := by
  obtain ⟨hasks, hends⟩ :=
    (Invariant.body S s.frame hs).kept (hm _) ⟨rfl, SlotTable.Extends.refl _⟩
  have hunit : (run S m s).2.output.unit = s.output.unit := by
    rw [(run_output hprop S s).1]
    refine Output.actAll_unit ?_ _
    intro action haction
    obtain ⟨r, hr, rfl⟩ := List.mem_map.mp haction
    exact (hasks r hr).1
  have hframe : (m S s.frame).frame.entered = s.frame.entered ∧
      s.frame.slots.Extends (m S s.frame).frame.slots := by
    rcases hends with ⟨_, -, hend⟩ | ⟨_, -, -, hend⟩ <;> exact hend
  have hfails : ∀ failure, (m S s.frame).result = .error failure → S.Admits failure := by
    intro failure hfailure
    rcases hends with ⟨_, hok, -⟩ | ⟨failure', herror, hadmits, -⟩
    · cases hok.symm.trans hfailure
    · cases herror.symm.trans hfailure
      exact hadmits
  obtain ⟨⟨hentered, hslots⟩, hfaults⟩ :=
    run_keeps (A := fun f => f.entered = s.frame.entered ∧ s.frame.slots.Extends f.slots)
      hprop (fun r hr => (hasks r hr).2) hframe hfails
  exact ⟨hentered, hslots, hunit, hfaults⟩

/-- What stands outside of methods keeps the scopes if it succeeds, and adds at most one if
    it fails. -/
theorem run_outside {m : Gen Unit} (hprop : m.Propagates)
    (hm : ∀ C : ProgramCoupling, C.Pairs C.Outside m m C.Outside)
    (hs : s.frame.Rooted S.symbols) :
    ((run S m s).1 = .ok () → (run S m s).2.frame.entered = s.frame.entered) ∧
      ((run S m s).2.frame.entered = s.frame.entered ∨
        s.frame.Deeper S.symbols (run S m s).2.frame) ∧
      ∀ fault, (run S m s).1 = .error (.fault fault) → S.Faults fault := by
  obtain ⟨hasks, hends⟩ := hm (definitionCoupling S s.frame hs) s.frame s.frame ⟨rfl, rfl⟩
  have hframe : (m S s.frame).frame.entered = s.frame.entered ∨
      s.frame.Deeper S.symbols (m S s.frame).frame := by
    rcases hends with ⟨_, _, -, -, -, -, hend⟩ | ⟨_, _, -, -, -, -, hend⟩
    · exact .inl hend
    · exact hend
  have hfails : ∀ failure, (m S s.frame).result = .error failure → S.Admits failure := by
    intro failure hfailure
    rcases hends with ⟨_, _, hok, -⟩ | ⟨failure', _, herror, -, hadmits, -⟩
    · cases hok.symm.trans hfailure
    · cases herror.symm.trans hfailure
      exact hadmits
  obtain ⟨hkept, hfaults⟩ :=
    run_keeps (A := fun f => f.entered = s.frame.entered ∨ s.frame.Deeper S.symbols f)
      hprop hasks hframe hfails
  refine ⟨?_, hkept, hfaults⟩
  intro hok
  rcases run_frame hprop S s with ⟨hresult, hlast⟩ | ⟨r, hr, reason, hresult, -⟩
  · rw [hlast]
    rcases hends with ⟨_, _, -, -, -, -, hend⟩ | ⟨failure', _, herror, -⟩
    · exact hend
    · cases herror.symm.trans (hresult.symm.trans hok)
  · cases hresult.symm.trans hok

/-- A run leaves scopes that exist, and has no fault but those that are possible. -/
def Safe (S : Setting) (m : Gen Unit) (s : Session σ ω) : Prop :=
  (run S m s).2.frame.Rooted S.symbols ∧
    ∀ fault, (run S m s).1 = .error (.fault fault) → S.Faults fault

theorem safe_body {m : Gen Unit} (hprop : m.Propagates) (hm : ∀ C : Coupling, C.Body m m)
    (hs : s.frame.Rooted S.symbols) : Safe S m s := by
  obtain ⟨hentered, -, -, hfaults⟩ := run_body hprop hm hs
  exact ⟨hs.of_eq hentered, hfaults⟩

theorem safe_outside {m : Gen Unit} (hprop : m.Propagates)
    (hm : ∀ C : ProgramCoupling, C.Pairs C.Outside m m C.Outside)
    (hs : s.frame.Rooted S.symbols) : Safe S m s := by
  obtain ⟨-, hsame | hdeeper, hfaults⟩ := run_outside hprop hm hs
  · exact ⟨hs.of_eq hsame, hfaults⟩
  · exact ⟨hs.of_deeper hdeeper, hfaults⟩

/-- A computation that asks for nothing. -/
theorem safe_quiet {m : Gen Unit} {result : Except Failure Unit} {g : Frame}
    (hprop : m.Propagates) (hrun : m S s.frame = .done result g) (hg : g.Rooted S.symbols)
    (hfails : ∀ failure, result = .error failure → S.Admits failure) : Safe S m s := by
  refine run_keeps hprop ?_ ?_ ?_
  · rw [hrun]
    simp
  · rw [hrun]
    exact hg
  · rw [hrun]
    exact hfails

theorem safe_operation (op : Operation) (hs : s.frame.Rooted S.symbols) :
    Safe S op.perform s := by
  have hprop := op.propagates_perform
  cases op with
  | openUnit kind name =>
      exact safe_outside hprop (fun C => ProgramCoupling.openUnit C.meet_outside kind name) hs
  | closeUnit => exact safe_outside hprop (fun C => ProgramCoupling.closeUnit C.meet_outside) hs
  | define d => exact safe_outside hprop (fun C => d.lower_pairs C) hs
  | slotOf name => exact safe_body hprop (fun C => (Body.slotOf name).bind fun _ => .pure ()) hs
  | freshSlot => exact safe_body hprop (fun C => Body.freshSlot.bind fun _ => .pure ()) hs
  | freshLabel => exact safe_body hprop (fun C => .freshLabel_bind fun _ => .pure ()) hs
  | body task => exact safe_body hprop (fun C => task.lower_body C) hs
  | emit e =>
      have hasks : ∀ r ∈ (emit e S s.frame).requests, r.frame.Rooted S.symbols :=
        List.forall_mem_singleton.mpr hs
      exact run_keeps hprop hasks hs fun failure h => by cases h
  | enterScope kind name =>
      have hrun := enterScope_run kind name S s.frame
      cases hid : S.symbols.childScope? kind name with
      | none =>
          rw [hid] at hrun
          refine safe_quiet hprop hrun hs ?_
          rintro _ ⟨⟩
          exact Setting.admits_error _
      | some id =>
          rw [hid] at hrun
          refine safe_quiet hprop hrun (hs.of_cons rfl (SymbolTable.scope_of_childScope? hid)) ?_
          rintro _ ⟨⟩
  | leaveScope =>
      have hrun := leaveScope_run S s.frame
      cases hentered : s.frame.entered with
      | nil =>
          rw [hentered] at hrun
          refine safe_quiet hprop hrun hs ?_
          rintro _ ⟨⟩
          exact Setting.admits_error _
      | cons id outer =>
          rw [hentered] at hrun
          refine safe_quiet hprop hrun (hs.of_tail hentered) ?_
          rintro _ ⟨⟩
  | beginMethod params =>
      have hrun := beginMethod_run params S s.frame
      rcases SlotTable.demand_allocateAll params (fun _ => List.mem_toFinset.mpr) .empty with
        ⟨slots, hslots, -⟩ | ⟨herror, -⟩
      · rw [SlotTable.forMethod, hslots] at hrun
        refine safe_quiet hprop hrun (hs.of_eq rfl) ?_
        rintro _ ⟨⟩
      · rw [SlotTable.forMethod, herror] at hrun
        refine safe_quiet hprop hrun hs ?_
        rintro _ ⟨⟩
        exact Setting.admits_exhausted

theorem rooted_after (ops : List Operation) (hs : s.frame.Rooted S.symbols) :
    (after S ops s).frame.Rooted S.symbols := by
  induction ops generalizing s with
  | nil => exact hs
  | cons op rest ih => exact ih (safe_operation op hs).1

theorem wellScoped_of_rooted (hs : s.frame.Rooted S.symbols) : s.WellScoped S where
  bottom := rfl
  exist := hs
  lookup name := by
    obtain ⟨scope, hscope⟩ := hs.active
    refine ⟨⟨S.symbols.function? name, ?_⟩, ⟨S.symbols.struct? name, ?_⟩,
      SymbolTable.lookupVariable_exists hs.root hscope name⟩
    · rw [SymbolTable.lookupFunction, hscope]
    · rw [SymbolTable.lookupStruct, hscope]
  faults op := (safe_operation op hs).2
  faults_typeOf horacle op fault h := by
    rcases (safe_operation op hs).2 fault h with hslots | ⟨id, scope, e, hscope, herror⟩
    · exact hslots
    · rw [horacle] at herror
      cases SymbolTable.reported_of_typeOf hs.root hscope herror
  body task := by
    obtain ⟨hentered, hslots, hunit, -⟩ := run_body task.propagates_lower (fun C => task.lower_body C) hs
    exact ⟨Frame.scopeStack_eq hentered, hunit, hslots.kept⟩
  define d := by
    obtain ⟨hok, hframe, -⟩ := run_outside d.propagates_lower (fun C => d.lower_pairs C) hs
    refine ⟨fun h => Frame.scopeStack_eq (hok h), ?_⟩
    rcases hframe with hsame | ⟨id, hdeeper, -⟩
    · exact ⟨[], Nat.zero_le 1, by rw [Frame.scopeStack_eq hsame, List.append_nil]⟩
    · exact ⟨[id], Nat.le_refl 1, Frame.scopeStack_cons hdeeper⟩

end Session

/-- For every table that comes about by declarations, and after any operations on any
    arguments, whether they succeed or fail: the scopes that are entered exist and the root
    is below them, no look-up faults, what stands inside of a method keeps the scopes, the
    open unit and the slots of names, and a definition leaves at most one scope behind, and
    none if it succeeds. -/
theorem wellScoped_after {σ ω : Type} [Sink σ ω] (S : Setting) (hS : S.symbols.Declared)
    (sink : σ) (ops : List Operation) :
    (Session.after S ops (Session.start sink : Session σ ω)).WellScoped S := by
  refine Session.wellScoped_of_rooted (Session.rooted_after ops ?_)
  exact List.forall_mem_singleton.mpr hS.root_exists

/-- A table with one function, and operations of which some fail: a scope is left that was
    never entered, and a definition is lowered that the table does not have. -/
theorem wellScoped_after_failures :
    let table := (SymbolTable.empty.declareFunction ⟨"f", [⟨"x", .int⟩], .int⟩).2
    let S : Setting := ⟨table, table.typeOf, {}⟩
    let ops : List Operation := [.leaveScope, .enterScope .function "f", .beginMethod ["x"],
      .body (.statement (.ret (some (.ident "x")))), .define (.function ⟨"g", [], .void, []⟩),
      .define (.struct ⟨"List", []⟩), .freshSlot]
    (Session.after S ops (Session.start Memory.empty)).WellScoped S :=
  wellScoped_after _ (.function _ .empty) _ _

end JasminGen
