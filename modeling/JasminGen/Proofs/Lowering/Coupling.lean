/-
  JasminGen.Proofs.Lowering.Coupling

  Lowering twice, side by side. The same source is lowered in two settings and from two
  frames. A coupling says which frames belong together, what is to hold between the
  requests of the two runs and between their failures, and what the settings have to do
  with each other for that. Then all lowering keeps to it: the runs end with the same
  result in frames that belong together, or they both fail.

  Labels may differ by a renaming.

  Main definitions: `Coupling`, `Coupling.Runs`, `Coupling.Pairs`. Main results:
  `Coupling.expr_lower`, `Coupling.stmt_lower`, `ProgramCoupling.program_lower`.
-/

import JasminGen.Proofs.SlotCount

namespace JasminGen

open Gen

-- ============================================================================
-- Renaming labels
-- ============================================================================

def Instr.relabel (ρ : Label → Label) : Instr → Instr
  | .branch condition target => .branch condition (ρ target)
  | .goto target => .goto (ρ target)
  | i => i

def Code.relabel (ρ : Label → Label) : Code → Code
  | .instr i => .instr (i.relabel ρ)
  | .label l => .label (ρ l)
  | c => c

def Action.relabel (ρ : Label → Label) : Action → Action
  | .code c => .code (c.relabel ρ)
  | action => action

@[simp] theorem Instr.relabel_id (i : Instr) : i.relabel id = i := by
  cases i <;> rfl

@[simp] theorem Code.relabel_id (c : Code) : c.relabel id = c := by
  cases c with
  | instr i => exact congrArg Code.instr i.relabel_id
  | _ => rfl

@[simp] theorem Action.relabel_id (action : Action) : action.relabel id = action := by
  cases action with
  | code c => exact congrArg Action.code c.relabel_id
  | _ => rfl

-- ============================================================================
-- Couplings
-- ============================================================================

/-- Two computations give the same value, or both fail. -/
inductive Agree {α : Type} (Fails : Failure → Failure → Prop) :
    Except Failure α → Except Failure α → Prop where
  | ok (a : α) : Agree Fails (.ok a) (.ok a)
  | error {failure failure' : Failure} : Fails failure failure' →
      Agree Fails (.error failure) (.error failure')

theorem Agree.refl {α : Type} {Fails : Failure → Failure → Prop}
    (h : ∀ failure, Fails failure failure) (x : Except Failure α) : Agree Fails x x := by
  cases x with
  | ok a => exact .ok a
  | error failure => exact .error (h failure)

/-- What belongs together in two runs. `Meet` holds of the two frames whenever the runs ask
    for something or fail, and `InMethod` between two constructs of a method. -/
structure Coupling where
  left : Setting
  right : Setting
  relabel : Label → Label
  Meet : Frame → Frame → Prop
  InMethod : Frame → Frame → Prop
  Asks : List Request → List Request → Prop
  Fails : Failure → Failure → Prop
  verbose_eq : right.options.verbose = left.options.verbose
  colored_eq : right.options.colored = left.options.colored
  strip_eq : right.options.strip = left.options.strip
  function?_eq : ∀ name, right.symbols.function? name = left.symbols.function? name
  struct?_eq : ∀ name, right.symbols.struct? name = left.symbols.struct? name
  scope_agree : ∀ {f f'}, InMethod f f' → Agree Fails
    (Failure.ofFault (left.symbols.scope f.activeScope))
    (Failure.ofFault (right.symbols.scope f'.activeScope))
  oracle_agree : ∀ {f f'}, InMethod f f' → ∀ e, Agree Fails
    (left.oracle f.activeScope e) (right.oracle f'.activeScope e)
  meet : ∀ {f f'}, InMethod f f' → Meet f f'
  slots_eq : ∀ {f f'}, InMethod f f' → f'.slots = f.slots
  extended : ∀ {f f'}, InMethod f f' → ∀ {slots}, f.slots.Extends slots →
    InMethod ⟨f.entered, slots, f.nextLabel⟩ ⟨f'.entered, slots, f'.nextLabel⟩
  label_eq : ∀ {f f'}, InMethod f f' → f'.nextLabel = relabel f.nextLabel
  labelled : ∀ {f f'}, InMethod f f' →
    InMethod ⟨f.entered, f.slots, f.nextLabel.next⟩ ⟨f'.entered, f'.slots, f'.nextLabel.next⟩
  asks_nil : Asks [] []
  asks_append : ∀ {rs rs' more more'}, Asks rs rs' → Asks more more' →
    Asks (rs ++ more) (rs' ++ more')
  asks_code : ∀ {f f'}, Meet f f' → ∀ c, Asks [⟨.code c, f⟩] [⟨.code (c.relabel relabel), f'⟩]
  asks_comment : ∀ {f f'}, InMethod f f' → ∀ s : Stmt,
    Asks (s.comment left f).requests (s.comment right f').requests
  fails_error : ∀ reason, Fails (.error reason) (.error reason)
  fails_exhausted : Fails (.fault .slotsExhausted) (.fault .slotsExhausted)

theorem Stmt.comment_eq (s : Stmt) (S : Setting) (f : Frame) :
    s.comment S f = (match s with
      | .block _ => Gen.pure ()
      | _ => if S.options.debug then emit (.comment (S.options.strip (s.render S.options.colored)))
        else Gen.pure ()) S f := rfl

/-- A statement has one comment, or none. -/
theorem Stmt.comment_run (s : Stmt) (S : Setting) (f : Frame) :
    s.comment S f = .done (.ok ()) f ∨
      (S.options.debug = true ∧ ∃ t, s.comment S f = emit (.comment t) S f) := by
  rw [comment_eq]
  split
  · exact .inl rfl
  · split
    · next hdebug => exact .inr ⟨hdebug, _, rfl⟩
    · exact .inl rfl

/-- The comment of a statement depends on the options alone, and has no labels. -/
theorem Stmt.comment_relabel (s : Stmt) (ρ : Label → Label) {S S' : Setting}
    (h : S'.options = S.options) (f f' : Frame) :
    (s.comment S' f').requests.map Request.action =
      ((s.comment S f).requests.map Request.action).map (Action.relabel ρ) := by
  rw [comment_eq, comment_eq, h]
  split
  · rfl
  · split
    · rfl
    · rfl

namespace Coupling

variable {C : Coupling} {α β α' β' : Type} {f f' : Frame}

/-- Two computations ask for what belongs together. They end with results and frames as `Q`
    says, or they both fail. -/
def Runs (C : Coupling) (m : Gen α) (m' : Gen α') (f f' : Frame)
    (Q : α → α' → Frame → Frame → Prop) : Prop :=
  C.Asks (m C.left f).requests (m' C.right f').requests ∧
    ((∃ a a', (m C.left f).result = .ok a ∧ (m' C.right f').result = .ok a' ∧
        Q a a' (m C.left f).frame (m' C.right f').frame) ∨
      ∃ failure failure', (m C.left f).result = .error failure ∧
        (m' C.right f').result = .error failure' ∧ C.Fails failure failure' ∧
        C.Meet (m C.left f).frame (m' C.right f').frame)

/-- Two computations give the same from any frames as `P` says, and leave frames as `Q`
    says. -/
def Pairs (C : Coupling) (P : Frame → Frame → Prop) (m m' : Gen α) (Q : Frame → Frame → Prop) :
    Prop :=
  ∀ f f', P f f' → C.Runs m m' f f' fun a a' g g' => a' = a ∧ Q g g'

/-- Two computations that belong together inside of a method. -/
def Body (C : Coupling) (m m' : Gen α) : Prop := C.Pairs C.InMethod m m' C.InMethod

-- ============================================================================
-- Primitive computations
-- ============================================================================

theorem Runs.mono {m : Gen α} {m' : Gen α'} {Q Q' : α → α' → Frame → Frame → Prop}
    (h : C.Runs m m' f f' Q) (hQ : ∀ a a' g g', Q a a' g g' → Q' a a' g g') :
    C.Runs m m' f f' Q' := by
  obtain ⟨hasks, ⟨a, a', ha, ha', hend⟩ | hfail⟩ := h
  · exact ⟨hasks, .inl ⟨a, a', ha, ha', hQ _ _ _ _ hend⟩⟩
  · exact ⟨hasks, .inr hfail⟩

theorem Runs.bind {m : Gen α} {m' : Gen α'} {k : α → Gen β} {k' : α' → Gen β'}
    {Q : β → β' → Frame → Frame → Prop}
    (h : C.Runs m m' f f' fun a a' g g' => C.Runs (k a) (k' a') g g' Q) :
    C.Runs (m >>= k) (m' >>= k') f f' Q := by
  obtain ⟨hasks, ⟨a, a', ha, ha', hasks', hend⟩ |
    ⟨failure, failure', hfailure, hfailure', hfails, hmeet⟩⟩ := h
  · rw [Runs, requests_bind_ok ha, requests_bind_ok ha', result_bind_ok ha, result_bind_ok ha',
      frame_bind_ok ha, frame_bind_ok ha']
    exact ⟨C.asks_append hasks hasks', hend⟩
  · rw [Runs, requests_bind_error hfailure, requests_bind_error hfailure',
      frame_bind_error hfailure, frame_bind_error hfailure']
    exact ⟨hasks, .inr ⟨failure, failure', result_bind_error hfailure,
      result_bind_error hfailure', hfails, hmeet⟩⟩

theorem runs_pure {a : α} {a' : α'} {Q : α → α' → Frame → Frame → Prop} (h : Q a a' f f') :
    C.Runs (Gen.pure a) (Gen.pure a') f f' Q :=
  ⟨C.asks_nil, .inl ⟨a, a', rfl, rfl, h⟩⟩

theorem runs_fail {failure failure' : Failure} {Q : α → α' → Frame → Frame → Prop}
    (hfails : C.Fails failure failure') (hmeet : C.Meet f f') :
    C.Runs (fail failure) (fail failure') f f' Q :=
  ⟨C.asks_nil, .inr ⟨failure, failure', rfl, rfl, hfails, hmeet⟩⟩

theorem runs_ofExcept {x x' : Except Failure α} {Q : α → α → Frame → Frame → Prop}
    (h : Agree C.Fails x x') (hmeet : C.Meet f f')
    (hok : ∀ a, x = .ok a → x' = .ok a → Q a a f f') :
    C.Runs (ofExcept x) (ofExcept x') f f' Q := by
  cases h with
  | ok a => exact runs_pure (hok a rfl rfl)
  | error hfails => exact runs_fail hfails hmeet

theorem runs_setting_bind {k : Setting → Gen α} {k' : Setting → Gen α'}
    {Q : α → α' → Frame → Frame → Prop} (h : C.Runs (k C.left) (k' C.right) f f' Q) :
    C.Runs (setting >>= k) (setting >>= k') f f' Q :=
  .bind ⟨C.asks_nil, .inl ⟨C.left, C.right, rfl, rfl, h⟩⟩

theorem runs_frame_bind {k : Frame → Gen α} {k' : Frame → Gen α'}
    {Q : α → α' → Frame → Frame → Prop} (h : C.Runs (k f) (k' f') f f' Q) :
    C.Runs (frame >>= k) (frame >>= k') f f' Q :=
  .bind ⟨C.asks_nil, .inl ⟨f, f', rfl, rfl, h⟩⟩

theorem runs_setFrame {g g' : Frame} {Q : Unit → Unit → Frame → Frame → Prop}
    (h : Q () () g g') : C.Runs (setFrame g) (setFrame g') f f' Q :=
  ⟨C.asks_nil, .inl ⟨(), (), rfl, rfl, h⟩⟩

theorem runs_request {action action' : Action} {Q : Unit → Unit → Frame → Frame → Prop}
    (hasks : C.Asks [⟨action, f⟩] [⟨action', f'⟩]) (h : Q () () f f') :
    C.Runs (request action) (request action') f f' Q :=
  ⟨hasks, .inl ⟨(), (), rfl, rfl, h⟩⟩

theorem runs_activeScope_bind {k : ScopeId → Gen α} {k' : ScopeId → Gen α'}
    {Q : α → α' → Frame → Frame → Prop}
    (h : C.Runs (k f.activeScope) (k' f'.activeScope) f f' Q) :
    C.Runs (activeScope >>= k) (activeScope >>= k') f f' Q :=
  .bind (runs_frame_bind (runs_pure h))

namespace Pairs

variable {P Q R : Frame → Frame → Prop}

theorem bind {m m' : Gen α} {k k' : α → Gen β} (h : C.Pairs P m m' Q)
    (hk : ∀ a, C.Pairs Q (k a) (k' a) R) : C.Pairs P (m >>= k) (m' >>= k') R := by
  intro f f' hf
  refine .bind ((h f f' hf).mono ?_)
  rintro a _ g g' ⟨rfl, hQ⟩
  exact hk _ g g' hQ

theorem pure (a : α) : C.Pairs P (Gen.pure a) (Gen.pure a) P :=
  fun _ _ hf => runs_pure ⟨rfl, hf⟩

/-- Both runs fail with the same error. -/
theorem fail (hP : ∀ {f f'}, P f f' → C.Meet f f') (reason : GenError) :
    C.Pairs P (fail (.error reason) : Gen α) (Gen.fail (.error reason)) Q :=
  fun _ _ hf => runs_fail (C.fails_error reason) (hP hf)

theorem code (hP : ∀ {f f'}, P f f' → C.Meet f f') (c : Code) :
    C.Pairs P (code c) (Gen.code (c.relabel C.relabel)) P :=
  fun _ _ hf => runs_request (C.asks_code (hP hf) c) ⟨rfl, hf⟩

theorem instrs (hP : ∀ {f f'}, P f f' → C.Meet f f') (is : List Instr) :
    C.Pairs P (instrs is) (Gen.instrs (is.map (Instr.relabel C.relabel))) P := by
  induction is with
  | nil => exact .pure ()
  | cons i rest ih => exact (code hP (.instr i)).bind fun _ => ih

end Pairs

-- ============================================================================
-- Computations of a method
-- ============================================================================

namespace Body

theorem bind {m m' : Gen α} {k k' : α → Gen β} (h : C.Body m m')
    (hk : ∀ a, C.Body (k a) (k' a)) : C.Body (m >>= k) (m' >>= k') :=
  Pairs.bind h hk

theorem pure (a : α) : C.Body (Gen.pure a) (Gen.pure a) :=
  Pairs.pure a

theorem instr (i : Instr) : C.Body (instr i) (Gen.instr (i.relabel C.relabel)) :=
  Pairs.code C.meet (.instr i)

theorem instrs (is : List Instr) :
    C.Body (instrs is) (Gen.instrs (is.map (Instr.relabel C.relabel))) :=
  Pairs.instrs C.meet is

theorem declareLabel (l : Label) : C.Body (declareLabel l) (Gen.declareLabel (C.relabel l)) :=
  Pairs.code C.meet (.label l)

theorem fail (reason : GenError) :
    C.Body (fail (.error reason) : Gen α) (Gen.fail (.error reason)) :=
  Pairs.fail C.meet reason

/-- A label is taken by both runs, and the renaming carries one to the other. -/
theorem freshLabel_bind {k k' : Label → Gen α} (h : ∀ l, C.Body (k l) (k' (C.relabel l))) :
    C.Body (freshLabel >>= k) (freshLabel >>= k') := by
  intro f f' hf
  refine .bind (runs_frame_bind (.bind (runs_setFrame (runs_pure ?_))))
  rw [C.label_eq hf]
  have hnext := C.labelled hf
  rw [C.label_eq hf] at hnext
  exact h f.nextLabel _ _ hnext

theorem scope : C.Body scope scope := by
  intro f f' hf
  refine runs_setting_bind (runs_activeScope_bind ?_)
  exact runs_ofExcept (C.scope_agree hf) (C.meet hf) fun _ _ _ => ⟨rfl, hf⟩

theorem typeOf (e : Expr) : C.Body (typeOf e) (typeOf e) := by
  intro f f' hf
  refine runs_setting_bind (runs_activeScope_bind ?_)
  exact runs_ofExcept (C.oracle_agree hf e) (C.meet hf) fun _ _ _ => ⟨rfl, hf⟩

end Body

/-- A look-up fails if its scope does not exist, and finds the same in both tables
    otherwise. -/
theorem agree_lookup {Fails : Failure → Failure → Prop} {x x' : Except Fault Scope} (a : α) :
    Agree Fails (Failure.ofFault x) (Failure.ofFault x') → Agree Fails
      (Failure.ofFault (match x with | .ok _ => .ok a | .error fault => .error fault))
      (Failure.ofFault (match x' with | .ok _ => .ok a | .error fault => .error fault)) := by
  intro h
  cases x with
  | ok s =>
      cases x' with
      | ok s' => exact .ok a
      | error fault' => cases h
  | error fault =>
      cases x' with
      | ok s' => cases h
      | error fault' =>
          cases h with
          | error hfails => exact .error hfails

theorem runs_lookupFunction {name : String}
    {Q : Option Signature → Option Signature → Frame → Frame → Prop}
    (hscope : Agree C.Fails (Failure.ofFault (C.left.symbols.scope f.activeScope))
      (Failure.ofFault (C.right.symbols.scope f'.activeScope)))
    (hmeet : C.Meet f f') (h : ∀ found, Q found found f f') :
    C.Runs (lookupFunction name) (lookupFunction name) f f' Q := by
  refine runs_setting_bind (runs_activeScope_bind (runs_ofExcept ?_ hmeet fun found _ _ => h found))
  rw [SymbolTable.lookupFunction, SymbolTable.lookupFunction, C.function?_eq name]
  exact agree_lookup _ hscope

theorem runs_lookupStruct {name : String}
    {Q : Option Layout → Option Layout → Frame → Frame → Prop}
    (hscope : Agree C.Fails (Failure.ofFault (C.left.symbols.scope f.activeScope))
      (Failure.ofFault (C.right.symbols.scope f'.activeScope)))
    (hmeet : C.Meet f f') (h : ∀ found, Q found found f f') :
    C.Runs (lookupStruct name) (lookupStruct name) f f' Q := by
  refine runs_setting_bind (runs_activeScope_bind (runs_ofExcept ?_ hmeet fun found _ _ => h found))
  rw [SymbolTable.lookupStruct, SymbolTable.lookupStruct, C.struct?_eq name]
  exact agree_lookup _ hscope

namespace Body

theorem lookupFunction (name : String) : C.Body (lookupFunction name) (lookupFunction name) :=
  fun _ _ hf => runs_lookupFunction (C.scope_agree hf) (C.meet hf) fun _ => ⟨rfl, hf⟩

theorem lookupStruct (name : String) : C.Body (lookupStruct name) (lookupStruct name) :=
  fun _ _ hf => runs_lookupStruct (C.scope_agree hf) (C.meet hf) fun _ => ⟨rfl, hf⟩

/-- A slot is taken from equal tables. -/
theorem takeSlot {take : SlotTable → Except Fault (Nat × SlotTable)}
    (hok : ∀ {t slot t'}, take t = .ok (slot, t') → t.Extends t')
    (herror : ∀ {t fault}, take t = .error fault → fault = .slotsExhausted) :
    C.Body (takeSlot take) (takeSlot take) := by
  intro f f' hf
  refine runs_frame_bind ?_
  rw [C.slots_eq hf]
  refine .bind (runs_ofExcept ?_ (C.meet hf) ?_)
  · cases htake : take f.slots with
    | ok taken => exact .ok taken
    | error fault =>
        obtain rfl := herror htake
        exact .error C.fails_exhausted
  · rintro ⟨slot, slots⟩ htake -
    cases hslots : take f.slots with
    | error fault =>
        rw [hslots] at htake
        cases htake
    | ok taken =>
        rw [hslots] at htake
        cases htake
        exact .bind (runs_setFrame (runs_pure ⟨rfl, C.extended hf (hok hslots)⟩))

theorem freshSlot : C.Body freshSlot freshSlot := by
  refine .takeSlot ?_ ?_
  · intro t slot t' h
    rw [SlotTable.allocateAnonymous] at h
    split at h
    · cases h
      exact Frame.extends_afterSlot ⟨[], t, ⟨0⟩⟩
    · cases h
  · intro t fault h
    exact (SlotTable.exhausted_of_allocateAnonymous h).1

theorem slotOf (name : String) : C.Body (slotOf name) (slotOf name) := by
  intro f f' hf
  refine runs_frame_bind ?_
  rw [C.slots_eq hf]
  cases f.slots.get? name with
  | some slot => exact runs_pure ⟨rfl, hf⟩
  | none =>
      refine Body.scope.bind (fun s => ?_) f f' hf
      have htake : C.Body (Gen.takeSlot fun slots => slots.allocate name)
          (Gen.takeSlot fun slots => slots.allocate name) :=
        .takeSlot SlotTable.extends_allocate fun h =>
          (SlotTable.exhausted_of_allocate (Finset.mem_singleton_self name) h).1
      cases s.find? name with
      | none => exact .fail _
      | some ty =>
          cases s.kind with
          | function | entry => exact htake
          | struct | root => exact .fail _

/-- The comments of a statement are asked for, or there is none. -/
theorem comment (s : Stmt) : C.Body s.comment s.comment := by
  intro f f' hf
  have hquiet : ∀ S g, (s.comment S g).result = .ok () ∧ (s.comment S g).frame = g := by
    intro S g
    rcases s.comment_run S g with hnone | ⟨-, t, hcomment⟩
    · rw [hnone]
      exact ⟨rfl, rfl⟩
    · rw [hcomment]
      exact ⟨rfl, rfl⟩
  obtain ⟨hresult, hframe⟩ := hquiet C.left f
  obtain ⟨hresult', hframe'⟩ := hquiet C.right f'
  refine ⟨C.asks_comment hf s, .inl ⟨(), (), hresult, hresult', rfl, ?_⟩⟩
  rw [hframe, hframe']
  exact hf

theorem box (ty : Ty) : C.Body (box ty) (box ty) := by
  cases ty with
  | int | bool => exact .instr _
  | _ => exact .fail _

theorem unbox (ty : Ty) : C.Body (unbox ty) (unbox ty) := by
  cases ty with
  | int | bool => exact .instr _
  | _ => exact .fail _

theorem zeroValue (ty : Ty) : C.Body (zeroValue ty) (zeroValue ty) := by
  cases ty with
  | int | bool => exact (instr _).bind fun _ => .box _
  | void => exact .fail _
  | struct name =>
      refine (lookupStruct name).bind fun found => ?_
      cases found with
      | none => exact .fail _
      | some layout => exact .instrs _
  | list element => exact .instrs _
  | fptr params result => exact .instr _

theorem condition (negated : Branch) : C.Body (condition negated) (condition negated) :=
  .freshLabel_bind fun _ => .freshLabel_bind fun _ => (instr _).bind fun _ =>
    (instr _).bind fun _ => (instr _).bind fun _ => (declareLabel _).bind fun _ =>
    (instr _).bind fun _ => (declareLabel _).bind fun _ => .box _

end Body

-- ============================================================================
-- Expressions
-- ============================================================================

theorem arith_relabel (ρ : Label → Label) (op : ArithOp) : op.instr.relabel ρ = op.instr := by
  cases op <;> rfl

theorem decided_relabel (ρ : Label → Label) (op : LogicOp) :
    op.decided.relabel ρ = op.decided := by
  cases op <;> rfl

theorem lowerName (C : Coupling) (name : String) :
    C.Body (Expr.lowerName name) (Expr.lowerName name) := by
  refine (Body.lookupFunction name).bind fun found => ?_
  cases found with
  | none => exact (Body.slotOf name).bind fun _ => .instr _
  | some signature =>
      refine Body.scope.bind fun s => ?_
      cases s.kind with
      | struct => exact .fail _
      | _ => exact .instrs _

theorem callResult (C : Coupling) (target : Expr) :
    C.Body (Expr.callResult target) (Expr.callResult target) := by
  refine (Body.typeOf target).bind fun ty => ?_
  cases ty with
  | fptr params result => exact .pure result
  | _ => exact .fail _

theorem narrowResult (C : Coupling) (ty : Ty) :
    C.Body (Expr.narrowResult ty) (Expr.narrowResult ty) := by
  rw [Expr.narrowResult]
  cases ty.className? with
  | none => exact .instr _
  | some name => exact .instr _

mutual

/-- Lowering an expression keeps to every coupling. -/
theorem expr_lower (C : Coupling) : ∀ e : Expr, C.Body e.lower e.lower
  | .int value => (Body.instr _).bind fun _ => .box _
  | .bool value => by
      cases value with
      | true => exact (Body.instr _).bind fun _ => .box _
      | false => exact (Body.instr _).bind fun _ => .box _
  | .ident name => C.lowerName name
  | .group inner => expr_lower C inner
  | .binary (.arith op) lhs rhs => by
      have hop : C.Body (instr op.instr) (instr op.instr) := by
        have h := Body.instr (C := C) op.instr
        rwa [arith_relabel] at h
      exact (expr_lower C lhs).bind fun _ => (Body.unbox _).bind fun _ =>
        (expr_lower C rhs).bind fun _ => (Body.unbox _).bind fun _ => hop.bind fun _ => .box _
  | .binary (.order op) lhs rhs =>
      (expr_lower C lhs).bind fun _ => (Body.unbox _).bind fun _ =>
        (expr_lower C rhs).bind fun _ => (Body.unbox _).bind fun _ => .condition _
  | .binary (.logic op) lhs rhs => by
      have hop : C.Body (instr op.decided) (instr op.decided) := by
        have h := Body.instr (C := C) op.decided
        rwa [decided_relabel] at h
      exact .freshLabel_bind fun _ => .freshLabel_bind fun _ => (expr_lower C lhs).bind fun _ =>
        (Body.unbox _).bind fun _ => (Body.instr _).bind fun _ => (expr_lower C rhs).bind fun _ =>
        (Body.unbox _).bind fun _ => (Body.instr _).bind fun _ =>
        (Body.declareLabel _).bind fun _ => hop.bind fun _ => (Body.declareLabel _).bind fun _ =>
        .box _
  | .binary .equal lhs rhs => by
      refine (Body.typeOf lhs).bind fun ty => ?_
      cases ty with
      | int | bool =>
          exact (expr_lower C lhs).bind fun _ => (Body.unbox _).bind fun _ =>
            (expr_lower C rhs).bind fun _ => (Body.unbox _).bind fun _ => .condition _
      | list | fptr =>
          exact (expr_lower C lhs).bind fun _ => (expr_lower C rhs).bind fun _ => .condition _
      | void | struct => exact .fail _
  | .unary .not operand =>
      (expr_lower C operand).bind fun _ => (Body.unbox _).bind fun _ => (Body.instr _).bind fun _ =>
        (Body.instr _).bind fun _ => .box _
  | .unary .neg operand =>
      (expr_lower C operand).bind fun _ => (Body.unbox _).bind fun _ => (Body.instr _).bind fun _ =>
        .box _
  | .index list position => by
      refine (Body.typeOf _).bind fun ty => ?_
      cases ty.className? with
      | none => exact .fail _
      | some name =>
          exact (expr_lower C list).bind fun _ => (expr_lower C position).bind fun _ =>
            (Body.unbox _).bind fun _ => (Body.instr _).bind fun _ => .instr _
  | .append list element =>
      (expr_lower C list).bind fun _ => (Body.instr _).bind fun _ =>
        (expr_lower C element).bind fun _ => .instr _
  | .size list => (expr_lower C list).bind fun _ => (Body.instr _).bind fun _ => .box _
  | .call target args =>
      (C.callResult target).bind fun result => (expr_lower C target).bind fun _ =>
        (Body.instrs _).bind fun _ => (lowerArgs C args).bind fun _ => (Body.instr _).bind fun _ =>
        C.narrowResult result
  | .field _ name => .fail _

/-- The same for the arguments of a call. -/
theorem lowerArgs (C : Coupling) : ∀ args : List Expr,
    C.Body (Expr.lowerArgs args) (Expr.lowerArgs args)
  | [] => .pure ()
  | arg :: rest => by
      have hafter : C.Body
          (Gen.instr (.invoke .arrayListAdd) >>= fun _ =>
            Gen.instr .pop >>= fun _ => Expr.lowerArgs rest)
          (Gen.instr (.invoke .arrayListAdd) >>= fun _ =>
            Gen.instr .pop >>= fun _ => Expr.lowerArgs rest) :=
        (Body.instr _).bind fun _ => (Body.instr _).bind fun _ => lowerArgs C rest
      refine (Body.instr _).bind fun _ => (Body.typeOf arg).bind fun ty => ?_
      cases ty with
      | list element =>
          exact (Body.instrs _).bind fun _ => (expr_lower C arg).bind fun _ =>
            (Body.instr _).bind fun _ => hafter
      | _ => exact (expr_lower C arg).bind fun _ => hafter

end

-- ============================================================================
-- Statements
-- ============================================================================

theorem store (C : Coupling) (name : String) : C.Body (Stmt.store name) (Stmt.store name) :=
  (Body.slotOf name).bind fun _ => .instr _

theorem dropResult (C : Coupling) (ty : Ty) : C.Body (Stmt.dropResult ty) (Stmt.dropResult ty) := by
  unfold Stmt.dropResult
  split
  · exact .pure ()
  · exact .instr _
  · exact .pure ()

theorem lowerDisplay (C : Coupling) (value : Expr) :
    C.Body (Stmt.lowerDisplay value) (Stmt.lowerDisplay value) := by
  refine (Body.typeOf value).bind fun ty => ?_
  cases ty with
  | int | bool =>
      exact (Body.instr _).bind fun _ => (C.expr_lower value).bind fun _ =>
        (Body.unbox _).bind fun _ => .instr _
  | _ => exact .fail _

/-- A target that cannot be assigned to is named in the same way. -/
theorem lowerAssign (C : Coupling) (value target : Expr) :
    C.Body (Stmt.lowerAssign value target) (Stmt.lowerAssign value target) := by
  cases target with
  | ident name => exact (C.expr_lower value).bind fun _ => C.store name
  | _ =>
      intro f f' hf
      refine runs_setting_bind ?_
      dsimp only
      rw [C.strip_eq, C.colored_eq]
      exact Body.fail _ f f' hf

mutual

/-- Lowering a statement keeps to every coupling. -/
theorem stmt_lower (C : Coupling) : ∀ s : Stmt, C.Body s.lower s.lower
  | .block body => stmts_lower C body
  | .declare name ty (some e) =>
      (Body.comment _).bind fun _ => (C.expr_lower e).bind fun _ => C.store name
  | .declare name ty none =>
      (Body.comment _).bind fun _ => (Body.zeroValue ty).bind fun _ => C.store name
  | .assign target value => (Body.comment _).bind fun _ => C.lowerAssign value target
  | .cond test positive negative =>
      (Body.comment _).bind fun _ => .freshLabel_bind fun _ => .freshLabel_bind fun _ =>
        (C.expr_lower test).bind fun _ => (Body.unbox _).bind fun _ => (Body.instr _).bind fun _ =>
        (stmt_lower C positive).bind fun _ => (Body.instr _).bind fun _ =>
        (Body.declareLabel _).bind fun _ => (Body.instr _).bind fun _ =>
        (option_lower C negative).bind fun _ => (Body.declareLabel _).bind fun _ => .instr _
  | .loop count body =>
      (Body.comment _).bind fun _ => Body.freshSlot.bind fun _ => .freshLabel_bind fun _ =>
        .freshLabel_bind fun _ => (C.expr_lower count).bind fun _ => (Body.unbox _).bind fun _ =>
        (Body.instr _).bind fun _ => (Body.instr _).bind fun _ => (Body.declareLabel _).bind fun _ =>
        (stmt_lower C body).bind fun _ => (Body.instr _).bind fun _ =>
        (Body.declareLabel _).bind fun _ => (Body.instr _).bind fun _ => .instr _
  | .call target args =>
      (Body.comment _).bind fun _ => (Body.typeOf target).bind fun ty =>
        (C.expr_lower (.call target args)).bind fun _ => C.dropResult ty
  | .ret none => (Body.comment _).bind fun _ => .instr _
  | .ret (some value) => by
      refine (Body.comment _).bind fun _ => (Body.typeOf value).bind fun ty =>
        (C.expr_lower value).bind fun _ => ?_
      split <;> exact .instr _
  | .display value => (Body.comment _).bind fun _ => C.lowerDisplay value
  | .append list element =>
      (Body.comment _).bind fun _ => (C.expr_lower (.append list element)).bind fun _ => .instr _
  | .size list => (Body.comment _).bind fun _ => (C.expr_lower (.size list)).bind fun _ => .instr _

/-- The same for a statement that may be missing. -/
theorem option_lower (C : Coupling) : ∀ s : Option Stmt,
    C.Body (Stmt.lowerOption s) (Stmt.lowerOption s)
  | none => .pure ()
  | some s => stmt_lower C s

/-- The same for statements in a row. -/
theorem stmts_lower (C : Coupling) : ∀ ss : List Stmt, C.Body (Stmt.lowerAll ss) (Stmt.lowerAll ss)
  | [] => .pure ()
  | s :: rest => (stmt_lower C s).bind fun _ => stmts_lower C rest

end

-- ============================================================================
-- Fields
-- ============================================================================

theorem field_initial (C : Coupling) (field : FieldDef) : C.Body field.initial field.initial := by
  unfold FieldDef.initial
  split
  · exact C.expr_lower _
  · exact .instr _
  · exact .zeroValue _

theorem initFields (C : Coupling) (className : String) (fields : List FieldDef) :
    C.Body (StructDef.initFields className fields) (StructDef.initFields className fields) := by
  induction fields with
  | nil => exact .pure ()
  | cons field rest ih =>
      exact (Body.instr _).bind fun _ => (C.field_initial field).bind fun _ =>
        (Body.instr _).bind fun _ => ih

end Coupling

-- ============================================================================
-- One run
-- ============================================================================

/-- What holds all along a run in a method: of the frame between two constructs, of the
    frame whenever something is asked for or the run fails, of each request and of the
    failure. -/
structure Invariant (S : Setting) where
  Holds : Frame → Prop
  Meets : Frame → Prop
  Asks : Request → Prop
  Fails : Failure → Prop
  meets : ∀ {f}, Holds f → Meets f
  scope : ∀ {f}, Holds f → ∀ {fault}, S.symbols.scope f.activeScope = .error fault →
    Fails (.fault fault)
  oracle : ∀ {f}, Holds f → ∀ {e failure}, S.oracle f.activeScope e = .error failure →
    Fails failure
  extended : ∀ {f}, Holds f → ∀ {slots}, f.slots.Extends slots →
    Holds ⟨f.entered, slots, f.nextLabel⟩
  labelled : ∀ {f}, Holds f → Holds ⟨f.entered, f.slots, f.nextLabel.next⟩
  code : ∀ {f}, Meets f → ∀ c, Asks ⟨.code c, f⟩
  comment : ∀ {f}, Holds f → ∀ t, Asks ⟨.emission (.comment t), f⟩
  error : ∀ reason, Fails (.error reason)
  exhausted : Fails (.fault .slotsExhausted)

namespace Invariant

variable {S : Setting} (I : Invariant S)

/-- A run goes along with itself. -/
def coupling : Coupling where
  left := S
  right := S
  relabel := id
  Meet f f' := f' = f ∧ I.Meets f
  InMethod f f' := f' = f ∧ I.Holds f
  Asks rs _ := ∀ r ∈ rs, I.Asks r
  Fails failure _ := I.Fails failure
  verbose_eq := rfl
  colored_eq := rfl
  strip_eq := rfl
  function?_eq _ := rfl
  struct?_eq _ := rfl
  scope_agree := by
    rintro f f' ⟨rfl, hf⟩
    cases h : S.symbols.scope f'.activeScope with
    | ok scope => exact .ok scope
    | error fault => exact .error (I.scope hf h)
  oracle_agree := by
    rintro f f' ⟨rfl, hf⟩ e
    cases h : S.oracle f'.activeScope e with
    | ok ty => exact .ok ty
    | error failure => exact .error (I.oracle hf h)
  meet := fun ⟨heq, hf⟩ => ⟨heq, I.meets hf⟩
  slots_eq := fun ⟨heq, _⟩ => congrArg Frame.slots heq
  extended := by
    rintro f f' ⟨rfl, hf⟩ slots hslots
    exact ⟨rfl, I.extended hf hslots⟩
  label_eq := fun ⟨heq, _⟩ => congrArg Frame.nextLabel heq
  labelled := by
    rintro f f' ⟨rfl, hf⟩
    exact ⟨rfl, I.labelled hf⟩
  asks_nil := by simp
  asks_append := fun h hmore => List.forall_mem_append.mpr ⟨h, hmore⟩
  asks_code := fun ⟨_, hf⟩ c => List.forall_mem_singleton.mpr (I.code hf c)
  asks_comment := by
    rintro f f' ⟨-, hf⟩ s
    rcases s.comment_run S f with hnone | ⟨-, t, hcomment⟩
    · rw [hnone]
      simp
    · rw [hcomment]
      exact List.forall_mem_singleton.mpr (I.comment hf t)
  fails_error := I.error
  fails_exhausted := I.exhausted

/-- What a computation asks for and how it ends. -/
theorem kept {α : Type} {m : Gen α} (h : I.coupling.Body m m) {f : Frame} (hf : I.Holds f) :
    (∀ r ∈ (m S f).requests, I.Asks r) ∧
      ((∃ a, (m S f).result = .ok a ∧ I.Holds (m S f).frame) ∨
        ∃ failure, (m S f).result = .error failure ∧ I.Fails failure ∧
          I.Meets (m S f).frame) := by
  obtain ⟨hasks, ⟨a, _, ha, -, -, -, hend⟩ | ⟨failure, _, hfailure, -, hfails, -, hmeets⟩⟩ :=
    h f f ⟨rfl, hf⟩
  · exact ⟨hasks, .inl ⟨a, ha, hend⟩⟩
  · exact ⟨hasks, .inr ⟨failure, hfailure, hfails, hmeets⟩⟩

end Invariant

-- ============================================================================
-- Definitions and programs
-- ============================================================================

/-- A coupling of the runs on a whole program. `Outside` holds of the frames between two
    definitions, and `Inside` in the scope of a definition before its method starts. -/
structure ProgramCoupling extends Coupling where
  Outside : Frame → Frame → Prop
  Inside : Frame → Frame → Prop
  meet_outside : ∀ {f f'}, Outside f f' → Meet f f'
  meet_inside : ∀ {f f'}, Inside f f' → Meet f f'
  /-- A scope is there in both settings or in none. -/
  enter : ∀ {f f'}, Outside f f' → ∀ kind name,
    (left.symbols.childScope? kind name = none ∧ right.symbols.childScope? kind name = none) ∨
      ∃ id id', left.symbols.childScope? kind name = some id ∧
        right.symbols.childScope? kind name = some id' ∧
        Inside ⟨id :: f.entered, f.slots, f.nextLabel⟩ ⟨id' :: f'.entered, f'.slots, f'.nextLabel⟩
  scope_inside : ∀ {f f'}, Inside f f' → Agree Fails
    (Failure.ofFault (left.symbols.scope f.activeScope))
    (Failure.ofFault (right.symbols.scope f'.activeScope))
  begin : ∀ {f f'}, Inside f f' → ∀ {params slots}, SlotTable.forMethod params = .ok slots →
    InMethod ⟨f.entered, slots, f.nextLabel⟩ ⟨f'.entered, slots, f'.nextLabel⟩
  leave : ∀ {f f'}, InMethod f f' → ∃ id id' outer outer',
    f.entered = id :: outer ∧ f'.entered = id' :: outer' ∧
      Outside ⟨outer, f.slots, f.nextLabel⟩ ⟨outer', f'.slots, f'.nextLabel⟩
  asks_open : ∀ {f f'}, Meet f f' → ∀ name, Asks [⟨.openUnit name, f⟩] [⟨.openUnit name, f'⟩]
  asks_close : ∀ {f f'}, Meet f f' → Asks [⟨.closeUnit, f⟩] [⟨.closeUnit, f'⟩]
  asks_report : ∀ {f f'}, Meet f f' → ∀ line, Asks [⟨.report line, f⟩] [⟨.report line, f'⟩]

namespace ProgramCoupling

open Coupling

variable {C : ProgramCoupling} {P : Frame → Frame → Prop}

theorem report (hP : ∀ {f f'}, P f f' → C.Meet f f') (word text name : String) :
    C.Pairs P (report word text name) (report word text name) P := by
  intro f f' hf
  refine runs_setting_bind ?_
  dsimp only
  rw [C.verbose_eq, C.colored_eq]
  split
  · exact runs_request (C.asks_report (hP hf) _) ⟨rfl, hf⟩
  · exact runs_pure ⟨rfl, hf⟩

theorem openUnit (hP : ∀ {f f'}, P f f' → C.Meet f f') (kind : UnitKind) (name : String) :
    C.Pairs P (openUnit kind name) (openUnit kind name) P :=
  fun _ _ hf => .bind (runs_request (C.asks_open (hP hf) name) (report hP _ _ _ _ _ hf))

theorem closeUnit (hP : ∀ {f f'}, P f f' → C.Meet f f') :
    C.Pairs P closeUnit closeUnit P :=
  fun _ _ hf => runs_request (C.asks_close (hP hf)) ⟨rfl, hf⟩

theorem enterScope (kind : ScopeKind) (name : String) :
    C.Pairs C.Outside (enterScope kind name) (enterScope kind name) C.Inside := by
  intro f f' hf
  refine runs_frame_bind (runs_setting_bind ?_)
  rcases C.enter hf kind name with ⟨hnone, hnone'⟩ | ⟨id, id', hid, hid', hinside⟩
  · rw [hnone, hnone']
    exact runs_fail (C.fails_error _) (C.meet_outside hf)
  · rw [hid, hid']
    exact runs_setFrame ⟨rfl, hinside⟩

theorem leaveScope : C.Pairs C.InMethod leaveScope leaveScope C.Outside := by
  intro f f' hf
  refine runs_frame_bind ?_
  obtain ⟨id, id', outer, outer', hentered, hentered', houtside⟩ := C.leave hf
  rw [hentered, hentered']
  exact runs_setFrame ⟨rfl, houtside⟩

theorem lookupFunction (name : String) :
    C.Pairs C.Inside (lookupFunction name) (lookupFunction name) C.Inside :=
  fun _ _ hf => runs_lookupFunction (C.scope_inside hf) (C.meet_inside hf) fun _ => ⟨rfl, hf⟩

theorem beginMethod (params : List String) :
    C.Pairs C.Inside (beginMethod params) (beginMethod params) C.InMethod := by
  intro f f' hf
  refine .bind (runs_ofExcept ?_ (C.meet_inside hf) ?_)
  · rcases SlotTable.demand_allocateAll params (fun _ => List.mem_toFinset.mpr) .empty with
      ⟨slots, hslots, -⟩ | ⟨herror, -⟩
    · rw [SlotTable.forMethod, hslots]
      exact .ok slots
    · rw [SlotTable.forMethod, herror]
      exact .error C.fails_exhausted
  · intro slots hslots _
    have hmethod : SlotTable.forMethod params = .ok slots := by
      cases h : SlotTable.forMethod params with
      | ok slots' =>
          rw [h] at hslots
          cases hslots
          rfl
      | error fault =>
          rw [h] at hslots
          cases hslots
    exact runs_frame_bind (runs_setFrame ⟨rfl, C.begin hf hmethod⟩)

theorem beginConstructor :
    C.Pairs C.Inside beginConstructor beginConstructor C.InMethod :=
  (beginMethod []).bind fun _ => (Pairs.code C.meet _).bind fun _ => .instrs C.meet _

theorem declareFields (fields : List FieldDef) :
    C.Pairs C.Inside (StructDef.declareFields fields) (StructDef.declareFields fields)
      C.Inside := by
  induction fields with
  | nil => exact .pure ()
  | cons field rest ih => exact (Pairs.code C.meet_inside _).bind fun _ => ih

/-- Lowering a struct keeps to every coupling. -/
theorem struct_lower (C : ProgramCoupling) (s : StructDef) :
    C.Pairs C.Outside s.lower s.lower C.Outside := by
  refine (report C.meet_outside _ _ _).bind fun _ => ?_
  split
  · exact .fail C.meet_outside _
  · exact (enterScope _ _).bind fun _ => (openUnit C.meet_inside _ _).bind fun _ =>
      (Pairs.code C.meet_inside _).bind fun _ => (declareFields _).bind fun _ =>
      beginConstructor.bind fun _ => .bind (C.initFields s.name s.fields) fun _ =>
      .bind (Body.instr _) fun _ => (Pairs.code C.meet _).bind fun _ =>
      (closeUnit C.meet).bind fun _ => leaveScope

/-- Lowering a function keeps to every coupling. -/
theorem function_lower (C : ProgramCoupling) (fn : FunctionDef) :
    C.Pairs C.Outside fn.lower fn.lower C.Outside := by
  refine (report C.meet_outside _ _ _).bind fun _ => (enterScope _ _).bind fun _ =>
    (lookupFunction _).bind fun found => ?_
  cases found with
  | none => exact .fail C.meet_inside _
  | some signature =>
      have hend : C.Pairs C.InMethod (code .endMethod >>= fun _ => Gen.leaveScope)
          (code .endMethod >>= fun _ => Gen.leaveScope) C.Outside :=
        (Pairs.code C.meet _).bind fun _ => leaveScope
      refine (beginMethod _).bind fun _ => (Pairs.code C.meet _).bind fun _ =>
        .bind (C.stmts_lower fn.body) fun _ => ?_
      cases signature.result.isVoid with
      | true => exact .bind (Body.instr _) fun _ => hend
      | false => exact hend

theorem functions_lower (C : ProgramCoupling) (fns : List FunctionDef) :
    C.Pairs C.Outside (FunctionDef.lowerAll fns) (FunctionDef.lowerAll fns) C.Outside := by
  induction fns with
  | nil => exact .pure ()
  | cons fn rest ih => exact (C.function_lower fn).bind fun _ => ih

/-- Lowering the entry class keeps to every coupling. -/
theorem entry_lower (C : ProgramCoupling) (body : List Stmt) (functions : List FunctionDef) :
    C.Pairs C.Outside (lowerEntry body functions) (lowerEntry body functions) C.Outside :=
  (report C.meet_outside _ _ _).bind fun _ => (openUnit C.meet_outside _ _).bind fun _ =>
    (Pairs.code C.meet_outside _).bind fun _ => (Pairs.code C.meet_outside _).bind fun _ =>
    (Pairs.code C.meet_outside _).bind fun _ => (enterScope _ _).bind fun _ =>
    beginConstructor.bind fun _ => .bind (C.stmts_lower body) fun _ => .bind (Body.instr _) fun _ =>
    (Pairs.code C.meet _).bind fun _ => leaveScope.bind fun _ =>
    (C.functions_lower functions).bind fun _ => closeUnit C.meet_outside

theorem structs_lower (C : ProgramCoupling) (structs : List StructDef) :
    C.Pairs C.Outside (Program.lowerStructs structs) (Program.lowerStructs structs) C.Outside := by
  induction structs with
  | nil => exact .pure ()
  | cons s rest ih => exact (C.struct_lower s).bind fun _ => ih

/-- Lowering a program keeps to every coupling. -/
theorem program_lower (C : ProgramCoupling) (program : Program) :
    C.Pairs C.Outside program.lower program.lower C.Outside :=
  (C.structs_lower program.structs).bind fun _ => C.entry_lower program.body program.functions

end ProgramCoupling

end JasminGen
