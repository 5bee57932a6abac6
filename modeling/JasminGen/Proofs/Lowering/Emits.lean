/-
  JasminGen.Proofs.Lowering.Emits

  What a computation that generates code does when it succeeds: its result, the
  actions it asks of the output, and the frame it leaves.

  Every primitive computation has one lemma that says exactly when it emits what, and
  `emits_bind` takes a sequence apart. Proofs about lowering use these lemmas and do
  not open `Gen`.

  Main definitions: `Emits`, `SlotOf`.
-/

import JasminGen.Codegen.Program

namespace JasminGen

/-- The computation succeeds with the result `a`, asks for the actions `acts` in this
    order, and goes from the frame `f` to the frame `f'`. -/
def Emits {α : Type} (m : Gen α) (S : Setting) (f : Frame) (a : α) (acts : List Action)
    (f' : Frame) : Prop :=
  (m S f).result = .ok a ∧ (m S f).requests.map Request.action = acts ∧ (m S f).frame = f'

/-- The code that an action writes, if it writes code. -/
def Action.code? : Action → Option Code
  | .code c => some c
  | _ => none

/-- The code that actions write. -/
def codesOf (acts : List Action) : List Code :=
  acts.filterMap Action.code?

/-- The action that writes an instruction. -/
abbrev Action.instr (i : Instr) : Action := .code (.instr i)

/-- The frame after two labels have been taken. Every construct with jumps takes
    exactly two. -/
def Frame.afterPair (f : Frame) : Frame :=
  ⟨f.entered, f.slots, f.nextLabel.next.next⟩

@[simp] theorem Frame.afterPair_entered (f : Frame) : f.afterPair.entered = f.entered := rfl

@[simp] theorem Frame.afterPair_slots (f : Frame) : f.afterPair.slots = f.slots := rfl

@[simp] theorem Frame.afterPair_nextLabel (f : Frame) :
    f.afterPair.nextLabel = f.nextLabel.next.next := rfl

/-- The frame after an anonymous slot has been taken. -/
def Frame.afterSlot (f : Frame) : Frame :=
  ⟨f.entered, ⟨f.slots.slots, f.slots.next + 1⟩, f.nextLabel⟩

@[simp] theorem Frame.afterSlot_entered (f : Frame) : f.afterSlot.entered = f.entered := rfl

@[simp] theorem Frame.afterSlot_nextLabel (f : Frame) :
    f.afterSlot.nextLabel = f.nextLabel := rfl

/-- The frame after a name has been bound to the next slot. -/
def Frame.bindSlot (f : Frame) (name : String) : Frame :=
  ⟨f.entered, ⟨(name, f.slots.next) :: f.slots.slots, f.slots.next + 1⟩, f.nextLabel⟩

@[simp] theorem Frame.bindSlot_entered (f : Frame) (name : String) :
    (f.bindSlot name).entered = f.entered := rfl

@[simp] theorem Frame.bindSlot_nextLabel (f : Frame) (name : String) :
    (f.bindSlot name).nextLabel = f.nextLabel := rfl

/-- The active scope depends on the entered scopes only. -/
theorem Frame.activeScope_congr {f g : Frame} (h : f.entered = g.entered) :
    f.activeScope = g.activeScope := by
  rw [Frame.activeScope, Frame.activeScope, h]

/-- The slot of a name, and the frame after it was asked for: a name that has no slot
    yet is bound to the next one, if it is a variable of a function or of the
    program's body. -/
inductive SlotOf (S : Setting) (f : Frame) (name : String) : Nat → Frame → Prop where
  | known {slot : Nat} : f.slots.get? name = some slot → SlotOf S f name slot f
  | taken {s : Scope} : f.slots.get? name = none → S.symbols.scope f.activeScope = .ok s →
      (s.find? name).isSome → s.kind = .function ∨ s.kind = .entry →
      f.slots.next < slotLimit → SlotOf S f name f.slots.next (f.bindSlot name)

namespace SlotOf

variable {S : Setting} {f f' : Frame} {name : String} {slot : Nat}

theorem entered (h : SlotOf S f name slot f') : f'.entered = f.entered := by
  cases h <;> rfl

theorem nextLabel (h : SlotOf S f name slot f') : f'.nextLabel = f.nextLabel := by
  cases h <;> rfl

end SlotOf

namespace Gen

variable {α β : Type} {S : Setting} {f f' : Frame} {acts : List Action} {u : Unit}

-- ============================================================================
-- Sequences and primitive computations
-- ============================================================================

theorem emits_pure {a b : α} :
    Emits (Gen.pure a) S f b acts f' ↔ a = b ∧ acts = [] ∧ f' = f := by
  simp [Emits, Gen.pure, eq_comm]

theorem emits_bind {m : Gen α} {k : α → Gen β} {b : β} :
    Emits (m >>= k) S f b acts f' ↔
      ∃ a first f₁ second, Emits m S f a first f₁ ∧ acts = first ++ second ∧
        Emits (k a) S f₁ b second f' := by
  unfold Emits
  cases h : (m S f).result with
  | error failure => simp [result_bind_error h]
  | ok a =>
      simp only [result_bind_ok h, requests_bind_ok h, frame_bind_ok h, List.map_append,
        Except.ok.injEq]
      constructor
      · rintro ⟨hr, ha, hf⟩
        exact ⟨a, _, _, _, ⟨rfl, rfl, rfl⟩, ha.symm, hr, rfl, hf⟩
      · rintro ⟨b, _, _, _, ⟨hb, rfl, rfl⟩, rfl, hr, rfl, hf⟩
        cases hb
        exact ⟨hr, rfl, hf⟩

/-- A computation that only answers something can be left out of a sequence. -/
theorem emits_query_bind {m : Gen α} {k : α → Gen β} {b : β} {answer : α → Prop}
    (hm : ∀ a first f₁, Emits m S f a first f₁ ↔ answer a ∧ first = [] ∧ f₁ = f) :
    Emits (m >>= k) S f b acts f' ↔ ∃ a, answer a ∧ Emits (k a) S f b acts f' := by
  simp only [emits_bind, hm]
  constructor
  · rintro ⟨a, _, _, _, ⟨ha, rfl, rfl⟩, rfl, hk⟩
    exact ⟨a, ha, hk⟩
  · rintro ⟨a, ha, hk⟩
    exact ⟨a, [], f, acts, ⟨ha, rfl, rfl⟩, rfl, hk⟩

theorem emits_fail {a : α} {failure : Failure} :
    Emits (fail failure) S f a acts f' ↔ False := by
  simp [Emits, fail]

theorem emits_unsupported {a : α} {construct : Construct} :
    Emits (unsupported construct) S f a acts f' ↔ False :=
  emits_fail

theorem emits_ofExcept {x : Except Failure α} {a : α} :
    Emits (ofExcept x) S f a acts f' ↔ x = .ok a ∧ acts = [] ∧ f' = f := by
  cases x with
  | ok b => simp [ofExcept, emits_pure]
  | error failure => simp [ofExcept, emits_fail]

theorem emits_ofFault {x : Except Fault α} {a : α} :
    Emits (ofExcept (Failure.ofFault x)) S f a acts f' ↔ x = .ok a ∧ acts = [] ∧ f' = f := by
  cases x <;> simp [emits_ofExcept, Failure.ofFault]

theorem emits_setting_bind {k : Setting → Gen β} {b : β} :
    Emits (setting >>= k) S f b acts f' ↔ Emits (k S) S f b acts f' := by
  have h : ∀ s first f₁, Emits setting S f s first f₁ ↔ s = S ∧ first = [] ∧ f₁ = f := by
    simp [Emits, setting, eq_comm]
  rw [emits_query_bind h]
  simp

theorem emits_frame_bind {k : Frame → Gen β} {b : β} :
    Emits (frame >>= k) S f b acts f' ↔ Emits (k f) S f b acts f' := by
  have h : ∀ g first f₁, Emits frame S f g first f₁ ↔ g = f ∧ first = [] ∧ f₁ = f := by
    simp [Emits, frame, eq_comm]
  rw [emits_query_bind h]
  simp

theorem emits_setFrame {g : Frame} :
    Emits (setFrame g) S f u acts f' ↔ acts = [] ∧ f' = g := by
  simp [Emits, setFrame, eq_comm]

theorem emits_setFrame_bind {g : Frame} {k : Unit → Gen β} {b : β} :
    Emits (setFrame g >>= k) S f b acts f' ↔ Emits (k ()) S g b acts f' := by
  simp only [emits_bind, emits_setFrame]
  constructor
  · rintro ⟨_, _, _, _, ⟨rfl, rfl⟩, rfl, hk⟩
    exact hk
  · intro hk
    exact ⟨(), [], g, acts, ⟨rfl, rfl⟩, rfl, hk⟩

-- ============================================================================
-- Requests
-- ============================================================================

theorem emits_request {action : Action} :
    Emits (request action) S f u acts f' ↔ acts = [action] ∧ f' = f := by
  simp only [Emits, Dialogue.result, Dialogue.requests, Dialogue.frame, outcome_request,
    List.map_cons, List.map_nil, true_and, eq_comm]

theorem emits_request_bind {action : Action} {k : Unit → Gen β} {b : β} :
    Emits (request action >>= k) S f b acts f' ↔
      ∃ rest, acts = action :: rest ∧ Emits (k ()) S f b rest f' := by
  simp only [emits_bind, emits_request]
  constructor
  · rintro ⟨_, _, _, rest, ⟨rfl, rfl⟩, rfl, hk⟩
    exact ⟨rest, rfl, hk⟩
  · rintro ⟨rest, rfl, hk⟩
    exact ⟨(), [action], f, rest, ⟨rfl, rfl⟩, rfl, hk⟩

theorem emits_code_bind {c : Code} {k : Unit → Gen β} {b : β} :
    Emits (code c >>= k) S f b acts f' ↔
      ∃ rest, acts = .code c :: rest ∧ Emits (k ()) S f b rest f' :=
  emits_request_bind

theorem emits_instr {i : Instr} :
    Emits (instr i) S f u acts f' ↔ acts = [.instr i] ∧ f' = f :=
  emits_request

theorem emits_instr_bind {i : Instr} {k : Unit → Gen β} {b : β} :
    Emits (instr i >>= k) S f b acts f' ↔
      ∃ rest, acts = .instr i :: rest ∧ Emits (k ()) S f b rest f' :=
  emits_request_bind

theorem emits_declareLabel_bind {l : Label} {k : Unit → Gen β} {b : β} :
    Emits (declareLabel l >>= k) S f b acts f' ↔
      ∃ rest, acts = .code (.label l) :: rest ∧ Emits (k ()) S f b rest f' :=
  emits_request_bind

theorem emits_instrs {is : List Instr} :
    Emits (instrs is) S f u acts f' ↔ acts = is.map Action.instr ∧ f' = f := by
  induction is generalizing acts with
  | nil => simp [instrs, emits_pure]
  | cons i rest ih =>
      simp only [instrs, emits_instr_bind, ih]
      constructor
      · rintro ⟨_, rfl, rfl, rfl⟩
        exact ⟨rfl, rfl⟩
      · rintro ⟨rfl, rfl⟩
        exact ⟨_, rfl, rfl, rfl⟩

theorem emits_instrs_bind {is : List Instr} {k : Unit → Gen β} {b : β} :
    Emits (instrs is >>= k) S f b acts f' ↔
      ∃ rest, acts = is.map Action.instr ++ rest ∧ Emits (k ()) S f b rest f' := by
  simp only [emits_bind, emits_instrs]
  constructor
  · rintro ⟨_, _, _, rest, ⟨rfl, rfl⟩, rfl, hk⟩
    exact ⟨rest, rfl, hk⟩
  · rintro ⟨rest, rfl, hk⟩
    exact ⟨(), _, f, rest, ⟨rfl, rfl⟩, rfl, hk⟩

-- ============================================================================
-- Scopes, types and labels
-- ============================================================================

theorem emits_activeScope_bind {k : ScopeId → Gen β} {b : β} :
    Emits (activeScope >>= k) S f b acts f' ↔ Emits (k f.activeScope) S f b acts f' := by
  have h : ∀ id first f₁,
      Emits activeScope S f id first f₁ ↔ id = f.activeScope ∧ first = [] ∧ f₁ = f := by
    simp [activeScope, emits_frame_bind, emits_pure, eq_comm]
  rw [emits_query_bind h]
  simp

theorem emits_lookupFunction {name : String} {found : Option Signature} :
    Emits (lookupFunction name) S f found acts f' ↔
      S.symbols.lookupFunction f.activeScope name = .ok found ∧ acts = [] ∧ f' = f := by
  simp only [lookupFunction, emits_setting_bind, emits_activeScope_bind, emits_ofFault]

theorem emits_lookupFunction_bind {name : String} {k : Option Signature → Gen β} {b : β} :
    Emits (lookupFunction name >>= k) S f b acts f' ↔
      ∃ found, S.symbols.lookupFunction f.activeScope name = .ok found ∧
        Emits (k found) S f b acts f' :=
  emits_query_bind fun _ _ _ => emits_lookupFunction

theorem emits_lookupStruct_bind {name : String} {k : Option Layout → Gen β} {b : β} :
    Emits (lookupStruct name >>= k) S f b acts f' ↔
      ∃ found, S.symbols.lookupStruct f.activeScope name = .ok found ∧
        Emits (k found) S f b acts f' := by
  apply emits_query_bind
  simp only [lookupStruct, emits_setting_bind, emits_activeScope_bind, emits_ofFault, implies_true]

theorem emits_scope_bind {k : Scope → Gen β} {b : β} :
    Emits (scope >>= k) S f b acts f' ↔
      ∃ s, S.symbols.scope f.activeScope = .ok s ∧ Emits (k s) S f b acts f' := by
  apply emits_query_bind
  simp only [scope, emits_setting_bind, emits_activeScope_bind, emits_ofFault, implies_true]

theorem emits_typeOf_bind {e : Expr} {k : Ty → Gen β} {b : β} :
    Emits (typeOf e >>= k) S f b acts f' ↔
      ∃ ty, S.oracle f.activeScope e = .ok ty ∧ Emits (k ty) S f b acts f' := by
  apply emits_query_bind
  simp only [typeOf, emits_setting_bind, emits_activeScope_bind, emits_ofExcept, implies_true]

theorem emits_freshLabel_bind {k : Label → Gen β} {b : β} :
    Emits (freshLabel >>= k) S f b acts f' ↔
      Emits (k f.nextLabel) S ⟨f.entered, f.slots, f.nextLabel.next⟩ b acts f' := by
  have h : ∀ l first f₁, Emits freshLabel S f l first f₁ ↔
      l = f.nextLabel ∧ first = [] ∧ f₁ = ⟨f.entered, f.slots, f.nextLabel.next⟩ := by
    simp [freshLabel, emits_frame_bind, emits_setFrame_bind, emits_pure, eq_comm]
  simp only [emits_bind, h]
  constructor
  · rintro ⟨_, _, _, _, ⟨rfl, rfl, rfl⟩, rfl, hk⟩
    exact hk
  · intro hk
    exact ⟨_, [], _, acts, ⟨rfl, rfl, rfl⟩, rfl, hk⟩

/-- Two labels in a row, as every construct with jumps takes them. -/
theorem emits_freshPair_bind {k : Label → Label → Gen β} {b : β} :
    Emits (freshLabel >>= fun l => freshLabel >>= fun m => k l m) S f b acts f' ↔
      Emits (k f.nextLabel f.nextLabel.next) S f.afterPair b acts f' := by
  rw [emits_freshLabel_bind, emits_freshLabel_bind]
  rfl

-- ============================================================================
-- Slots
-- ============================================================================

theorem emits_takeSlot {take : SlotTable → Except Fault (Nat × SlotTable)} {slot : Nat} :
    Emits (takeSlot take) S f slot acts f' ↔
      ∃ slots, take f.slots = .ok (slot, slots) ∧ acts = [] ∧
        f' = ⟨f.entered, slots, f.nextLabel⟩ := by
  have h : ∀ p first f₁, Emits (ofExcept (Failure.ofFault (take f.slots))) S f p first f₁ ↔
      take f.slots = .ok p ∧ first = [] ∧ f₁ = f := fun _ _ _ => emits_ofFault
  simp only [takeSlot, emits_frame_bind, emits_query_bind h, emits_setFrame_bind, emits_pure]
  constructor
  · rintro ⟨⟨_, slots⟩, ht, rfl, ha, hf⟩
    exact ⟨slots, ht, ha, hf⟩
  · rintro ⟨slots, ht, ha, hf⟩
    exact ⟨(slot, slots), ht, rfl, ha, hf⟩

theorem emits_freshSlot {slot : Nat} :
    Emits freshSlot S f slot acts f' ↔
      f.slots.next < slotLimit ∧ slot = f.slots.next ∧ acts = [] ∧ f' = f.afterSlot := by
  simp only [freshSlot, emits_takeSlot, SlotTable.allocateAnonymous]
  by_cases h : f.slots.next < slotLimit
  · simp [h, Frame.afterSlot, eq_comm, and_assoc]
  · simp [h]

theorem emits_freshSlot_bind {k : Nat → Gen β} {b : β} :
    Emits (freshSlot >>= k) S f b acts f' ↔
      f.slots.next < slotLimit ∧ Emits (k f.slots.next) S f.afterSlot b acts f' := by
  simp only [emits_bind, emits_freshSlot]
  constructor
  · rintro ⟨_, _, _, _, ⟨hlt, rfl, rfl, rfl⟩, rfl, hk⟩
    exact ⟨hlt, hk⟩
  · rintro ⟨hlt, hk⟩
    exact ⟨_, [], _, acts, ⟨hlt, rfl, rfl, rfl⟩, rfl, hk⟩

/-- A name without a slot is allocated the next one. -/
theorem emits_allocate {name : String} {slot : Nat} (hn : f.slots.get? name = none) :
    Emits (takeSlot fun slots => slots.allocate name) S f slot acts f' ↔
      f.slots.next < slotLimit ∧ slot = f.slots.next ∧ acts = [] ∧ f' = f.bindSlot name := by
  simp only [emits_takeSlot, SlotTable.allocate, hn, SlotTable.allocateAnonymous]
  by_cases h : f.slots.next < slotLimit
  · simp [h, Frame.bindSlot, eq_comm, and_assoc]
  · simp [h]

theorem emits_slotOf {name : String} {slot : Nat} :
    Emits (slotOf name) S f slot acts f' ↔ SlotOf S f name slot f' ∧ acts = [] := by
  rw [slotOf, emits_frame_bind]
  cases hn : f.slots.get? name with
  | some known =>
      simp only [emits_pure]
      constructor
      · rintro ⟨rfl, rfl, rfl⟩
        exact ⟨.known hn, rfl⟩
      · rintro ⟨hs, rfl⟩
        cases hs with
        | known hk => exact ⟨Option.some.inj (hn.symm.trans hk), rfl, rfl⟩
        | taken hk => cases hn.symm.trans hk
  | none =>
      simp only [emits_scope_bind]
      constructor
      · rintro ⟨s, hs, hk⟩
        split at hk
        · next hv hkind =>
            obtain ⟨hlt, rfl, rfl, rfl⟩ := (emits_allocate hn).mp hk
            exact ⟨.taken hn hs (by simp [hv]) (.inl hkind) hlt, rfl⟩
        · next hv hkind =>
            obtain ⟨hlt, rfl, rfl, rfl⟩ := (emits_allocate hn).mp hk
            exact ⟨.taken hn hs (by simp [hv]) (.inr hkind) hlt, rfl⟩
        · exact (emits_unsupported.mp hk).elim
        · exact (emits_fail.mp hk).elim
      · rintro ⟨hs, rfl⟩
        cases hs with
        | known hk => cases hn.symm.trans hk
        | taken _ hs hv hkind hlt =>
            refine ⟨_, hs, ?_⟩
            obtain ⟨ty, hty⟩ := Option.isSome_iff_exists.mp hv
            rcases hkind with hkind | hkind <;> rw [hty, hkind] <;>
              exact (emits_allocate hn).mpr ⟨hlt, rfl, rfl, rfl⟩

theorem emits_slotOf_bind {name : String} {k : Nat → Gen β} {b : β} :
    Emits (slotOf name >>= k) S f b acts f' ↔
      ∃ slot f₁, SlotOf S f name slot f₁ ∧ Emits (k slot) S f₁ b acts f' := by
  simp only [emits_bind, emits_slotOf]
  constructor
  · rintro ⟨slot, _, f₁, _, ⟨hs, rfl⟩, rfl, hk⟩
    exact ⟨slot, f₁, hs, hk⟩
  · rintro ⟨slot, f₁, hs, hk⟩
    exact ⟨slot, [], f₁, acts, ⟨hs, rfl⟩, rfl, hk⟩

-- ============================================================================
-- Reports, and the scope and slots of a method
-- ============================================================================

/-- Reports ask nothing but to report, and leave the frame alone. -/
theorem emits_report {word text name : String} (h : Emits (report word text name) S f u acts f') :
    f' = f ∧ ∀ action ∈ acts, ∃ line, action = .report line := by
  rw [report, emits_setting_bind] at h
  dsimp only at h
  split at h
  · obtain ⟨rfl, rfl⟩ := emits_request.mp h
    exact ⟨rfl, by simp⟩
  · obtain ⟨-, rfl, rfl⟩ := emits_pure.mp h
    exact ⟨rfl, by simp⟩

theorem emits_enterScope_bind {kind : ScopeKind} {name : String} {k : Unit → Gen β} {b : β} :
    Emits (enterScope kind name >>= k) S f b acts f' ↔
      ∃ id, S.symbols.childScope? kind name = some id ∧
        Emits (k ()) S ⟨id :: f.entered, f.slots, f.nextLabel⟩ b acts f' := by
  have h : ∀ v first f₁, Emits (enterScope kind name) S f v first f₁ ↔
      ∃ id, S.symbols.childScope? kind name = some id ∧ first = [] ∧
        f₁ = ⟨id :: f.entered, f.slots, f.nextLabel⟩ := by
    intro v first f₁
    rw [enterScope, emits_frame_bind, emits_setting_bind]
    cases S.symbols.childScope? kind name with
    | none => simp [emits_fail]
    | some id => simp [emits_setFrame]
  simp only [emits_bind, h]
  constructor
  · rintro ⟨_, _, _, _, ⟨id, hid, rfl, rfl⟩, rfl, hk⟩
    exact ⟨id, hid, hk⟩
  · rintro ⟨id, hid, hk⟩
    exact ⟨(), [], _, acts, ⟨id, hid, rfl, rfl⟩, rfl, hk⟩

theorem emits_leaveScope :
    Emits leaveScope S f u acts f' ↔
      ∃ id rest, f.entered = id :: rest ∧ acts = [] ∧ f' = ⟨rest, f.slots, f.nextLabel⟩ := by
  rw [leaveScope, emits_frame_bind]
  cases f.entered with
  | nil => simp [emits_fail]
  | cons id rest => simp [emits_setFrame, and_assoc]

theorem emits_leaveScope_bind {k : Unit → Gen β} {b : β} :
    Emits (leaveScope >>= k) S f b acts f' ↔
      ∃ id rest, f.entered = id :: rest ∧
        Emits (k ()) S ⟨rest, f.slots, f.nextLabel⟩ b acts f' := by
  simp only [emits_bind, emits_leaveScope]
  constructor
  · rintro ⟨_, _, _, _, ⟨id, rest, he, rfl, rfl⟩, rfl, hk⟩
    exact ⟨id, rest, he, hk⟩
  · rintro ⟨id, rest, he, hk⟩
    exact ⟨(), [], _, acts, ⟨id, rest, he, rfl, rfl⟩, rfl, hk⟩

theorem emits_beginMethod_bind {params : List String} {k : Unit → Gen β} {b : β} :
    Emits (beginMethod params >>= k) S f b acts f' ↔
      ∃ slots, SlotTable.forMethod params = .ok slots ∧
        Emits (k ()) S ⟨f.entered, slots, f.nextLabel⟩ b acts f' := by
  have h : ∀ v first f₁, Emits (beginMethod params) S f v first f₁ ↔
      ∃ slots, SlotTable.forMethod params = .ok slots ∧ first = [] ∧
        f₁ = ⟨f.entered, slots, f.nextLabel⟩ := by
    intro v first f₁
    rw [beginMethod, emits_query_bind fun _ _ _ => emits_ofFault]
    simp only [emits_frame_bind, emits_setFrame]
  simp only [emits_bind, h]
  constructor
  · rintro ⟨_, _, _, _, ⟨slots, hs, rfl, rfl⟩, rfl, hk⟩
    exact ⟨slots, hs, hk⟩
  · rintro ⟨slots, hs, hk⟩
    exact ⟨(), [], _, acts, ⟨slots, hs, rfl, rfl⟩, rfl, hk⟩

end Gen

end JasminGen
