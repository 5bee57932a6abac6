/-
  JasminGen.Codegen.Gen

  Computations that generate code.

  Such a computation reads the setting of a run and changes a frame: the scopes
  that are entered, the slots of the current method and the next label. It does not
  write anything. It asks the output for what is to be written, each time with the
  frame of that moment, and goes on with the answer: done, or refused with an error.
  If it fails, what it has asked for and its frame up to that point remain.

  Main definitions: `Setting`, `Frame`, `Action`, `Request`, `Dialogue`, `Gen`.
-/

import JasminGen.Code.Emission
import JasminGen.Slot
import JasminGen.Symbol.Typing
import JasminGen.Text.Ansi

namespace JasminGen

/-- Choices of a run. -/
structure Options where
  /-- Write each statement as a comment before its code. -/
  debug : Bool := false
  /-- Report progress. -/
  verbose : Bool := false
  /-- Use colours in rendered source and in reports. -/
  colored : Bool := false
  /-- Take control sequences out of rendered source before it goes into the output. -/
  strip : String → String := Text.strip

/-- What a run reads and never changes. -/
structure Setting where
  symbols : SymbolTable
  oracle : Oracle
  options : Options

/-- What a run changes. The root scope is always below the entered scopes, of which
    the innermost comes first. -/
structure Frame where
  entered : List ScopeId
  slots : SlotTable
  nextLabel : Label
  deriving DecidableEq

namespace Frame

def initial : Frame := ⟨[], .empty, ⟨0⟩⟩

/-- The scope in which names are looked up. -/
def activeScope (frame : Frame) : ScopeId :=
  frame.entered.headD SymbolTable.root

end Frame

/-- What code generation asks of the output. -/
inductive Action where
  | openUnit (name : String)
  | closeUnit
  | code (code : Code)
  | emission (emission : Emission)
  /-- Report a line of progress. -/
  | report (line : String)
  deriving DecidableEq

/-- An action, and the frame when it is asked for. -/
structure Request where
  action : Action
  frame : Frame
  deriving DecidableEq

/-- The course of a computation: it has ended, or it asks something of the output and
    goes on with the answer. -/
inductive Dialogue (α : Type) where
  | done (result : Except Failure α) (frame : Frame)
  | ask (request : Request) (next : Except GenError Unit → Dialogue α)

/-- How a computation ends, what it has asked for, and the frame it leaves. -/
structure Outcome (α : Type) where
  result : Except Failure α
  requests : List Request
  frame : Frame

namespace Dialogue

variable {α β : Type}

/-- Go on with the result of a computation and the frame it leaves, unless it fails. -/
def bind : Dialogue α → (α → Frame → Dialogue β) → Dialogue β
  | .done (.ok a) frame, f => f a frame
  | .done (.error failure) frame, _ => .done (.error failure) frame
  | .ask r next, f => .ask r fun answer => (next answer).bind f

/-- What comes of a computation if nothing that it asks for is refused. -/
def outcome : Dialogue α → Outcome α
  | .done result frame => ⟨result, [], frame⟩
  | .ask r next =>
    let rest := (next (.ok ())).outcome
    ⟨rest.result, r :: rest.requests, rest.frame⟩

abbrev result (d : Dialogue α) : Except Failure α := d.outcome.result

abbrev requests (d : Dialogue α) : List Request := d.outcome.requests

abbrev frame (d : Dialogue α) : Frame := d.outcome.frame

@[simp] theorem result_done (result : Except Failure α) (frame : Frame) :
    (done result frame).result = result := rfl

@[simp] theorem requests_done (result : Except Failure α) (frame : Frame) :
    (done result frame).requests = [] := rfl

@[simp] theorem frame_done (result : Except Failure α) (frame : Frame) :
    (done result frame).frame = frame := rfl

theorem outcome_bind_ok {d : Dialogue α} {a : α} (h : d.result = .ok a)
    (f : α → Frame → Dialogue β) :
    (d.bind f).outcome = ⟨(f a d.frame).result, d.requests ++ (f a d.frame).requests,
      (f a d.frame).frame⟩ := by
  induction d with
  | done result frame =>
      obtain rfl : result = .ok a := h
      rfl
  | ask r next ih =>
      simp only [bind, outcome, ih (.ok ()) h]
      rfl

theorem outcome_bind_error {d : Dialogue α} {failure : Failure} (h : d.result = .error failure)
    (f : α → Frame → Dialogue β) :
    (d.bind f).outcome = ⟨.error failure, d.requests, d.frame⟩ := by
  induction d with
  | done result frame =>
      obtain rfl : result = .error failure := h
      rfl
  | ask r next ih =>
      simp only [bind, outcome, ih (.ok ()) h]
      rfl

theorem bind_assoc {γ : Type} (d : Dialogue α) (f : α → Frame → Dialogue β)
    (g : β → Frame → Dialogue γ) :
    (d.bind f).bind g = d.bind fun a frame => (f a frame).bind g := by
  induction d with
  | done result frame => cases result <;> rfl
  | ask r next ih =>
      simp only [bind]
      exact congrArg (Dialogue.ask r) (funext ih)

end Dialogue

/-- A computation that generates code. -/
def Gen (α : Type) := Setting → Frame → Dialogue α

namespace Gen

variable {α β : Type}

def pure (a : α) : Gen α := fun _ frame => .done (.ok a) frame

/-- Go on with the result of a computation, unless it fails. -/
def bind (m : Gen α) (f : α → Gen β) : Gen β := fun setting frame =>
  (m setting frame).bind fun a => f a setting

instance : Monad Gen where
  pure := Gen.pure
  bind := Gen.bind

section

variable {m : Gen α} {k : α → Gen β} {S : Setting} {f : Frame} {a : α} {failure : Failure}

theorem bind_ok (h : (m S f).result = .ok a) :
    ((m >>= k) S f).outcome = ⟨(k a S (m S f).frame).result,
      (m S f).requests ++ (k a S (m S f).frame).requests, (k a S (m S f).frame).frame⟩ :=
  Dialogue.outcome_bind_ok h _

theorem bind_error (h : (m S f).result = .error failure) :
    ((m >>= k) S f).outcome = ⟨.error failure, (m S f).requests, (m S f).frame⟩ :=
  Dialogue.outcome_bind_error h _

theorem result_bind_ok (h : (m S f).result = .ok a) :
    ((m >>= k) S f).result = (k a S (m S f).frame).result := by
  rw [Dialogue.result, bind_ok h]

theorem requests_bind_ok (h : (m S f).result = .ok a) :
    ((m >>= k) S f).requests = (m S f).requests ++ (k a S (m S f).frame).requests := by
  rw [Dialogue.requests, bind_ok h]

theorem frame_bind_ok (h : (m S f).result = .ok a) :
    ((m >>= k) S f).frame = (k a S (m S f).frame).frame := by
  rw [Dialogue.frame, bind_ok h]

theorem result_bind_error (h : (m S f).result = .error failure) :
    ((m >>= k) S f).result = .error failure := by
  rw [Dialogue.result, bind_error h]

theorem requests_bind_error (h : (m S f).result = .error failure) :
    ((m >>= k) S f).requests = (m S f).requests := by
  rw [Dialogue.requests, bind_error h]

theorem frame_bind_error (h : (m S f).result = .error failure) :
    ((m >>= k) S f).frame = (m S f).frame := by
  rw [Dialogue.frame, bind_error h]

end

/-! ## Primitive computations -/

def fail (failure : Failure) : Gen α := fun _ frame => .done (.error failure) frame

def unsupported (construct : Construct) : Gen α := fail (.unsupported construct)

def ofExcept : Except Failure α → Gen α
  | .ok a => Gen.pure a
  | .error failure => fail failure

def setting : Gen Setting := fun s frame => .done (.ok s) frame

def frame : Gen Frame := fun _ frame => .done (.ok frame) frame

def setFrame (next : Frame) : Gen Unit := fun _ _ => .done (.ok ()) next

/-- Ask something of the output, and fail if it is refused. -/
def request (action : Action) : Gen Unit := fun _ frame =>
  .ask ⟨action, frame⟩ fun answer => .done (answer.mapError Failure.error) frame

theorem outcome_request (action : Action) (S : Setting) (f : Frame) :
    (request action S f).outcome = ⟨.ok (), [⟨action, f⟩], f⟩ := rfl

/-! ## Code -/

def code (c : Code) : Gen Unit := request (.code c)

def instr (i : Instr) : Gen Unit := code (.instr i)

/-- Several instructions in a row. -/
def instrs : List Instr → Gen Unit
  | [] => Gen.pure ()
  | i :: rest => do
    instr i
    instrs rest

/-- Declare a label at this point of the code. -/
def declareLabel (l : Label) : Gen Unit := code (.label l)

def emit (e : Emission) : Gen Unit := request (.emission e)

/-! ## Units and reports -/

/-- Report a line of progress if the run is to report: a word in green, a text and
    a name in blue. -/
def report (word text name : String) : Gen Unit := do
  let options := (← setting).options
  if options.verbose then
    request (.report (Text.paint options.colored .boldGreen word ++ " " ++ text ++ " " ++
      Text.paint options.colored .blue name))

end Gen

/-- What a unit holds. -/
inductive UnitKind where
  | struct
  | entry
  deriving DecidableEq

def UnitKind.text : UnitKind → String
  | .struct => "struct"
  | .entry => "entry"

namespace Gen

variable {α β : Type}

/-- Start the unit of a class. -/
def openUnit (kind : UnitKind) (name : String) : Gen Unit := do
  request (.openUnit name)
  report "Generating" (kind.text ++ " unit") (name ++ ".j")

def closeUnit : Gen Unit := request .closeUnit

/-! ## Scopes -/

def activeScope : Gen ScopeId := do
  Gen.pure (← frame).activeScope

/-- Go into the scope of a function, a struct or the program's body. -/
def enterScope (kind : ScopeKind) (name : String) : Gen Unit := do
  let f ← frame
  match (← setting).symbols.childScope? kind name with
  | some id => setFrame ⟨id :: f.entered, f.slots, f.nextLabel⟩
  | none => fail (.error (.unknownScope name))

/-- Go back to the scope from before the last entry. The root is never left. -/
def leaveScope : Gen Unit := do
  let f ← frame
  match f.entered with
  | [] => fail (.error .scopeUnderflow)
  | _ :: rest => setFrame ⟨rest, f.slots, f.nextLabel⟩

/-- The function of a name, as seen from the active scope. -/
def lookupFunction (name : String) : Gen (Option Signature) := do
  let s ← setting
  ofExcept (Failure.ofFault (s.symbols.lookupFunction (← activeScope) name))

/-- The struct of a name, as seen from the active scope. -/
def lookupStruct (name : String) : Gen (Option Layout) := do
  let s ← setting
  ofExcept (Failure.ofFault (s.symbols.lookupStruct (← activeScope) name))

/-- The active scope itself. -/
def scope : Gen Scope := do
  let s ← setting
  ofExcept (Failure.ofFault (s.symbols.scope (← activeScope)))

/-- The static type of an expression in the active scope. -/
def typeOf (e : Expr) : Gen Ty := do
  let s ← setting
  ofExcept (s.oracle (← activeScope) e)

/-! ## Slots and labels -/

/-- Start a method with the given parameters. -/
def beginMethod (params : List String) : Gen Unit := do
  let slots ← ofExcept (Failure.ofFault (SlotTable.forMethod params))
  let f ← frame
  setFrame ⟨f.entered, slots, f.nextLabel⟩

/-- The slot that a slot table hands out. -/
def takeSlot (take : SlotTable → Except Fault (Nat × SlotTable)) : Gen Nat := do
  let f ← frame
  let (slot, slots) ← ofExcept (Failure.ofFault (take f.slots))
  setFrame ⟨f.entered, slots, f.nextLabel⟩
  Gen.pure slot

/-- A slot of its own, which no name refers to. -/
def freshSlot : Gen Nat := takeSlot SlotTable.allocateAnonymous

/-- The slot of a parameter or local. A local gets its slot at its first use. Fields
    are variables of a struct's scope and have no slot. -/
def slotOf (name : String) : Gen Nat := do
  match (← frame).slots.get? name with
  | some slot => Gen.pure slot
  | none =>
    let s ← scope
    match s.find? name, s.kind with
    | some _, .function | some _, .entry => takeSlot fun slots => slots.allocate name
    | some _, .struct => unsupported (.fieldAsVariable name)
    | _, _ => fail (.unresolved .variable name)

/-- A label that no other code uses. -/
def freshLabel : Gen Label := do
  let f ← frame
  setFrame ⟨f.entered, f.slots, f.nextLabel.next⟩
  Gen.pure f.nextLabel

end Gen

end JasminGen
