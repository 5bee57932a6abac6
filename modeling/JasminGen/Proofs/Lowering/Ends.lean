/-
  JasminGen.Proofs.Lowering.Ends

  How a computation that generates code ends, also if it fails: its result, the frame it
  leaves, and whether a unit is open then. A computation that opens a unit while one is
  open, or writes while none is, does not end in this sense.

  Every primitive computation has one lemma that says what has to hold for it to end as
  wanted, and `Ends.bind` puts them in a row.

  Main definitions: `Stage`, `openedAfter`, `Ends`. Main result: `Ends.bind`.
-/

import JasminGen.Codegen.Program

namespace JasminGen

/-- Where a computation stands: its frame, and whether a unit is open. -/
structure Stage where
  frame : Frame
  opened : Bool

/-- Whether a unit is open after an action, if the action is possible. -/
def Action.opened? : Action → Bool → Option Bool
  | .openUnit _, false => some true
  | .closeUnit, true => some false
  | .code _, true | .emission _, true => some true
  | .report _, opened => some opened
  | _, _ => none

/-- The same for actions in a row. -/
def openedAfter : List Action → Bool → Option Bool
  | [], opened => some opened
  | action :: rest, opened => (action.opened? opened).bind (openedAfter rest)

theorem openedAfter_append (acts acts' : List Action) (opened : Bool) :
    openedAfter (acts ++ acts') opened = (openedAfter acts opened).bind (openedAfter acts') := by
  induction acts generalizing opened with
  | nil => rfl
  | cons action rest ih =>
      rw [List.cons_append, openedAfter, openedAfter, Option.bind_assoc]
      congr 1
      funext after
      exact ih after

/-- The computation keeps to the order of units, and ends either with a result and at a
    stage as `Q` says, or with a failure and at a stage as `E` says. -/
def Ends {α : Type} (m : Gen α) (S : Setting) (s : Stage) (Q : α → Stage → Prop)
    (E : Failure → Stage → Prop) : Prop :=
  ∃ opened, openedAfter ((m S s.frame).requests.map Request.action) s.opened = some opened ∧
    match (m S s.frame).result with
    | .ok a => Q a ⟨(m S s.frame).frame, opened⟩
    | .error failure => E failure ⟨(m S s.frame).frame, opened⟩

namespace Ends

variable {α β : Type} {S : Setting} {s : Stage} {E E' : Failure → Stage → Prop}

theorem mono {m : Gen α} {Q Q' : α → Stage → Prop} (h : Ends m S s Q E)
    (hQ : ∀ a s', Q a s' → Q' a s') (hE : ∀ failure s', E failure s' → E' failure s') :
    Ends m S s Q' E' := by
  obtain ⟨opened, hopened, h⟩ := h
  refine ⟨opened, hopened, ?_⟩
  cases hr : (m S s.frame).result with
  | ok a =>
      rw [hr] at h
      exact hQ a _ h
  | error failure =>
      rw [hr] at h
      exact hE failure _ h

/-- A computation is followed by another from the stage it leaves. -/
theorem bind {m : Gen α} {k : α → Gen β} {Q : β → Stage → Prop}
    (h : Ends m S s (fun a s' => Ends (k a) S s' Q E) E) : Ends (m >>= k) S s Q E := by
  obtain ⟨opened, hopened, h⟩ := h
  unfold Ends
  cases hr : (m S s.frame).result with
  | ok a =>
      rw [hr] at h
      obtain ⟨opened', hopened', h'⟩ := h
      rw [Gen.requests_bind_ok hr, Gen.result_bind_ok hr, Gen.frame_bind_ok hr]
      refine ⟨opened', ?_, h'⟩
      rw [List.map_append, openedAfter_append, hopened]
      exact hopened'
  | error failure =>
      rw [hr] at h
      rw [Gen.requests_bind_error hr, Gen.result_bind_error hr, Gen.frame_bind_error hr]
      exact ⟨opened, hopened, h⟩

end Ends

namespace Gen

variable {α β : Type} {S : Setting} {s : Stage} {E : Failure → Stage → Prop}

-- ============================================================================
-- Primitive computations
-- ============================================================================

theorem ends_pure {a : α} {Q : α → Stage → Prop} (h : Q a s) : Ends (Gen.pure a) S s Q E :=
  ⟨s.opened, rfl, h⟩

theorem ends_fail {failure : Failure} {Q : α → Stage → Prop} (h : E failure s) :
    Ends (fail failure) S s Q E :=
  ⟨s.opened, rfl, h⟩

theorem ends_ofExcept {x : Except Failure α} {Q : α → Stage → Prop}
    (hok : ∀ a, x = .ok a → Q a s) (herror : ∀ failure, x = .error failure → E failure s) :
    Ends (ofExcept x) S s Q E := by
  cases x with
  | ok a => exact ends_pure (hok a rfl)
  | error failure => exact ends_fail (herror failure rfl)

theorem ends_ofFault {x : Except Fault α} {Q : α → Stage → Prop}
    (hok : ∀ a, x = .ok a → Q a s) (herror : ∀ fault, x = .error fault → E (.fault fault) s) :
    Ends (ofExcept (Failure.ofFault x)) S s Q E := by
  cases x with
  | ok a => exact ends_pure (hok a rfl)
  | error fault => exact ends_fail (herror fault rfl)

theorem ends_setting_bind {k : Setting → Gen β} {Q : β → Stage → Prop} (h : Ends (k S) S s Q E) :
    Ends (setting >>= k) S s Q E :=
  .bind ⟨s.opened, rfl, h⟩

theorem ends_frame_bind {k : Frame → Gen β} {Q : β → Stage → Prop}
    (h : Ends (k s.frame) S s Q E) : Ends (frame >>= k) S s Q E :=
  .bind ⟨s.opened, rfl, h⟩

theorem ends_setFrame {f : Frame} {Q : Unit → Stage → Prop} (h : Q () ⟨f, s.opened⟩) :
    Ends (setFrame f) S s Q E :=
  ⟨s.opened, rfl, h⟩

theorem ends_setFrame_bind {f : Frame} {k : Unit → Gen β} {Q : β → Stage → Prop}
    (h : Ends (k ()) S ⟨f, s.opened⟩ Q E) : Ends (setFrame f >>= k) S s Q E :=
  .bind (ends_setFrame h)

-- ============================================================================
-- Requests
-- ============================================================================

theorem ends_request {action : Action} {opened : Bool} {Q : Unit → Stage → Prop}
    (hopened : action.opened? s.opened = some opened) (h : Q () ⟨s.frame, opened⟩) :
    Ends (request action) S s Q E := by
  refine ⟨opened, ?_, h⟩
  change (action.opened? s.opened).bind (openedAfter []) = some opened
  rw [hopened]
  rfl

theorem ends_code {c : Code} {Q : Unit → Stage → Prop} (hopened : s.opened = true) (h : Q () s) :
    Ends (code c) S s Q E := by
  obtain ⟨f, opened⟩ := s
  obtain rfl : opened = true := hopened
  exact ends_request rfl h

theorem ends_emit {e : Emission} {Q : Unit → Stage → Prop} (hopened : s.opened = true)
    (h : Q () s) : Ends (emit e) S s Q E := by
  obtain ⟨f, opened⟩ := s
  obtain rfl : opened = true := hopened
  exact ends_request rfl h

theorem ends_instrs {is : List Instr} {Q : Unit → Stage → Prop} (hopened : s.opened = true)
    (h : Q () s) : Ends (instrs is) S s Q E := by
  induction is with
  | nil => exact ends_pure h
  | cons i rest ih => exact .bind (ends_code hopened ih)

theorem ends_report {word text name : String} {Q : Unit → Stage → Prop} (h : Q () s) :
    Ends (report word text name) S s Q E := by
  refine ends_setting_bind ?_
  dsimp only
  split
  · exact ends_request rfl h
  · exact ends_pure h

theorem ends_openUnit {kind : UnitKind} {name : String} {Q : Unit → Stage → Prop}
    (hopened : s.opened = false) (h : Q () ⟨s.frame, true⟩) :
    Ends (openUnit kind name) S s Q E := by
  obtain ⟨f, opened⟩ := s
  obtain rfl : opened = false := hopened
  exact .bind (ends_request rfl (ends_report h))

theorem ends_closeUnit {Q : Unit → Stage → Prop} (hopened : s.opened = true)
    (h : Q () ⟨s.frame, false⟩) : Ends closeUnit S s Q E := by
  obtain ⟨f, opened⟩ := s
  obtain rfl : opened = true := hopened
  exact ends_request rfl h

-- ============================================================================
-- Scopes and types
-- ============================================================================

theorem ends_activeScope_bind {k : ScopeId → Gen β} {Q : β → Stage → Prop}
    (h : Ends (k s.frame.activeScope) S s Q E) : Ends (activeScope >>= k) S s Q E :=
  .bind (ends_frame_bind (ends_pure h))

theorem ends_enterScope {kind : ScopeKind} {name : String} {id : ScopeId}
    {Q : Unit → Stage → Prop} (hid : S.symbols.childScope? kind name = some id)
    (h : Q () ⟨⟨id :: s.frame.entered, s.frame.slots, s.frame.nextLabel⟩, s.opened⟩) :
    Ends (enterScope kind name) S s Q E := by
  refine ends_frame_bind (ends_setting_bind ?_)
  rw [hid]
  exact ends_setFrame h

theorem ends_leaveScope {id : ScopeId} {outer : List ScopeId} {Q : Unit → Stage → Prop}
    (hentered : s.frame.entered = id :: outer)
    (h : Q () ⟨⟨outer, s.frame.slots, s.frame.nextLabel⟩, s.opened⟩) :
    Ends leaveScope S s Q E := by
  refine ends_frame_bind ?_
  rw [hentered]
  exact ends_setFrame h

theorem ends_scope {Q : Scope → Stage → Prop}
    (hok : ∀ scope, S.symbols.scope s.frame.activeScope = .ok scope → Q scope s)
    (herror : ∀ fault, S.symbols.scope s.frame.activeScope = .error fault → E (.fault fault) s) :
    Ends scope S s Q E :=
  ends_setting_bind (ends_activeScope_bind (ends_ofFault hok herror))

theorem ends_lookupFunction {name : String} {Q : Option Signature → Stage → Prop}
    (hok : ∀ found, S.symbols.lookupFunction s.frame.activeScope name = .ok found → Q found s)
    (herror : ∀ fault,
      S.symbols.lookupFunction s.frame.activeScope name = .error fault → E (.fault fault) s) :
    Ends (lookupFunction name) S s Q E :=
  ends_setting_bind (ends_activeScope_bind (ends_ofFault hok herror))

theorem ends_lookupStruct {name : String} {Q : Option Layout → Stage → Prop}
    (hok : ∀ found, S.symbols.lookupStruct s.frame.activeScope name = .ok found → Q found s)
    (herror : ∀ fault,
      S.symbols.lookupStruct s.frame.activeScope name = .error fault → E (.fault fault) s) :
    Ends (lookupStruct name) S s Q E :=
  ends_setting_bind (ends_activeScope_bind (ends_ofFault hok herror))

theorem ends_typeOf {e : Expr} {Q : Ty → Stage → Prop}
    (hok : ∀ ty, S.oracle s.frame.activeScope e = .ok ty → Q ty s)
    (herror : ∀ failure, S.oracle s.frame.activeScope e = .error failure → E failure s) :
    Ends (typeOf e) S s Q E :=
  ends_setting_bind (ends_activeScope_bind (ends_ofExcept hok herror))

-- ============================================================================
-- Slots and labels
-- ============================================================================

theorem ends_beginMethod {params : List String} {Q : Unit → Stage → Prop}
    (hok : ∀ slots, SlotTable.forMethod params = .ok slots →
      Q () ⟨⟨s.frame.entered, slots, s.frame.nextLabel⟩, s.opened⟩)
    (herror : ∀ fault, SlotTable.forMethod params = .error fault → E (.fault fault) s) :
    Ends (beginMethod params) S s Q E :=
  .bind (ends_ofFault (fun slots h => ends_frame_bind (ends_setFrame (hok slots h))) herror)

theorem ends_takeSlot {take : SlotTable → Except Fault (Nat × SlotTable)}
    {Q : Nat → Stage → Prop}
    (hok : ∀ slot slots, take s.frame.slots = .ok (slot, slots) →
      Q slot ⟨⟨s.frame.entered, slots, s.frame.nextLabel⟩, s.opened⟩)
    (herror : ∀ fault, take s.frame.slots = .error fault → E (.fault fault) s) :
    Ends (takeSlot take) S s Q E := by
  refine ends_frame_bind (.bind (ends_ofFault ?_ herror))
  rintro ⟨slot, slots⟩ h
  exact ends_setFrame_bind (ends_pure (hok slot slots h))

theorem ends_freshLabel {Q : Label → Stage → Prop}
    (h : Q s.frame.nextLabel
      ⟨⟨s.frame.entered, s.frame.slots, s.frame.nextLabel.next⟩, s.opened⟩) :
    Ends freshLabel S s Q E :=
  ends_frame_bind (ends_setFrame_bind (ends_pure h))

end Gen

end JasminGen
