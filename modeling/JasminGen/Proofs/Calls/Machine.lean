/-
  JasminGen.Proofs.Calls.Machine

  The stack machine with calls of functions. An instruction does what it does on the
  machine without calls, apart from the constructor that copies a list and the methods
  that collect arguments and call a function pointer. The lists of arguments are objects
  that no function sees; their elements are kept beside the heap.

  Main definitions: `Caller`, `Instr.perform`, `Caller.step`, `Follows`. Main results:
  `Caller.step_eq`, `Follows.bind`.
-/

import JasminGen.Proofs.Calls.Evaluation
import Mathlib.Logic.Relation

namespace JasminGen

-- ============================================================================
-- States
-- ============================================================================

/-- The state of a function that makes calls. -/
structure Caller where
  stack : List Word
  slots : Nat → Option Word
  world : World
  /-- The elements of the objects of class `ArrayList`. -/
  arrays : Nat → List Word

namespace Caller

/-- The machine without calls in the same state. -/
def machine (c : Caller) : Machine := ⟨c.stack, c.slots, c.world.heap, c.world.printed⟩

/-- Take over the state of the machine without calls. -/
def resume (c : Caller) (m : Machine) : Caller :=
  ⟨m.stack, m.slots, ⟨⟨m.heap, m.printed⟩, c.world.calls⟩, c.arrays⟩

def stop {α : Type} (c : Caller) (stop : Stop) : Except (Stop × World) α :=
  .error (stop, c.world)

def illegal {α : Type} (c : Caller) : Except (Stop × World) α := c.stop (.trapped .illegal)

/-- Do what the machine without calls does. -/
def lift (c : Caller) : Except Stop Machine → Except (Stop × World) Caller
  | .ok m => .ok (c.resume m)
  | .error stop => c.stop stop

/-- The arrays with other elements at an address. -/
def arraysWith (c : Caller) (address : Nat) (ws : List Word) : Nat → List Word :=
  fun a => if a = address then ws else c.arrays a

end Caller

-- ============================================================================
-- Instructions
-- ============================================================================

/-- Call a method. -/
def Method.perform (callee : Callee) (method : Method) (c : Caller) :
    Except (Stop × World) Caller :=
  match method, c.stack with
  | .arrayListInit, .ref address :: stack =>
    if c.world.heap[address]? = some (.raw arrayListClass) then
      .ok ⟨stack, c.slots,
        { c.world with heap := c.world.heap.set address (.plain arrayListClass) },
        c.arraysWith address []⟩
    else c.illegal
  | .arrayListAdd, w :: .ref address :: stack =>
    if c.world.heap[address]? = some (.plain arrayListClass) ∧ w.isPrimitive = false then
      .ok ⟨.int 1 :: stack, c.slots, c.world, c.arraysWith address (c.arrays address ++ [w])⟩
    else c.illegal
  | .listCopy, source :: .ref target :: stack =>
    match copyList c.world.heap target source with
    | some heap => .ok ⟨stack, c.slots, { c.world with heap := heap }, c.arrays⟩
    | none => c.illegal
  | .fptrInvoke, .ref address :: target :: stack =>
    if c.world.heap[address]? = some (.plain arrayListClass) then
      match Evaluation.invoke callee target (c.arrays address) c.world with
      | (.ok w, W) => .ok ⟨w :: stack, c.slots, W, c.arrays⟩
      | (.error trap, W) => .error (.trapped trap, W)
    else c.illegal
  | _, _ => c.lift (method.exec c.machine)

/-- Execute an instruction that does not jump. -/
def Instr.perform (callee : Callee) (i : Instr) (c : Caller) : Except (Stop × World) Caller :=
  match i with
  | .invoke method => method.perform callee c
  | i => c.lift (i.exec c.machine)

namespace Caller

def jump (code : List Code) (l : Label) (c : Caller) : Except (Stop × World) (Nat × Caller) :=
  match labelPlace code l with
  | some place => .ok (place, c)
  | none => c.illegal

/-- One step at a place of the code. -/
def step (callee : Callee) (code : List Code) (place : Nat) (c : Caller) :
    Except (Stop × World) (Nat × Caller) :=
  match code[place]? with
  | some (.label _) => .ok (place + 1, c)
  | some (.instr (.goto l)) => jump code l c
  | some (.instr (.branch condition l)) =>
    match condition.test c.stack with
    | some (true, stack) => jump code l { c with stack := stack }
    | some (false, stack) => .ok (place + 1, { c with stack := stack })
    | none => c.illegal
  | some (.instr i) => (i.perform callee c).map fun c' => (place + 1, c')
  | _ => c.illegal

/-- Some steps lead from one place and state to another one. -/
def Leads (callee : Callee) (code : List Code) : Nat × Caller → Nat × Caller → Prop :=
  Relation.ReflTransGen fun s s' => step callee code s.1 s.2 = .ok s'

/-- Some steps lead to a trap in a world. -/
def Stops (callee : Callee) (code : List Code) (s : Nat × Caller) (trap : Trap) (W : World) :
    Prop :=
  ∃ s', Leads callee code s s' ∧ step callee code s'.1 s'.2 = .error (.trapped trap, W)

end Caller

/-- The methods that are only called to call functions. -/
def Method.isForCalls : Method → Bool
  | .arrayListInit | .arrayListAdd | .listCopy | .fptrInvoke => true
  | _ => false

def Instr.isForCalls : Instr → Bool
  | .invoke method => method.isForCalls
  | _ => false

section Perform

variable {callee : Callee} {c : Caller} {m : Machine} {i : Instr}

/-- Instructions that are not for calls do what they do without calls. -/
theorem Instr.perform_eq (h : i.isForCalls = false) :
    i.perform callee c = c.lift (i.exec c.machine) := by
  unfold perform
  split
  · next method =>
      unfold Method.perform
      split
      · cases h
      · cases h
      · cases h
      · cases h
      · rfl
  · rfl

/-- Without calls, an instruction for calls is not executed. -/
theorem Instr.isForCalls_of_exec (h : i.exec c.machine = .ok m) : i.isForCalls = false := by
  cases i with
  | invoke method => cases method <;> first | rfl | cases h
  | _ => rfl

theorem Instr.perform_of_exec (h : i.exec c.machine = .ok m) :
    i.perform callee c = .ok (c.resume m) := by
  rw [perform_eq (isForCalls_of_exec h), h]
  rfl

end Perform

namespace Caller

variable {callee : Callee} {code : List Code} {place place' : Nat} {c c' : Caller}
  {l : Label} {condition : Branch} {stack : List Word}

theorem step_perform {i : Instr} (hi : code[place]? = some (.instr i)) (hjump : i.jump? = none) :
    step callee code place c = (i.perform callee c).map fun c' => (place + 1, c') := by
  cases i with
  | goto l => cases hjump
  | branch condition l => cases hjump
  | _ => simp only [step.eq_def, hi]

theorem step_label (h : code[place]? = some (.label l)) :
    step callee code place c = .ok (place + 1, c) := by
  simp only [step.eq_def, h]

theorem step_goto (h : code[place]? = some (.instr (.goto l)))
    (hl : labelPlace code l = some place') : step callee code place c = .ok (place', c) := by
  simp only [step.eq_def, h, jump, hl]

theorem step_taken (h : code[place]? = some (.instr (.branch condition l)))
    (htest : condition.test c.stack = some (true, stack))
    (hl : labelPlace code l = some place') :
    step callee code place c = .ok (place', { c with stack := stack }) := by
  simp only [step.eq_def, h, htest, jump, hl]

theorem step_notTaken (h : code[place]? = some (.instr (.branch condition l)))
    (htest : condition.test c.stack = some (false, stack)) :
    step callee code place c = .ok (place + 1, { c with stack := stack }) := by
  simp only [step.eq_def, h, htest]

theorem step_undecided (h : code[place]? = some (.instr (.branch condition l)))
    (htest : condition.test c.stack = none) :
    step callee code place c = .error (.trapped .illegal, c.world) := by
  simp only [step.eq_def, h, htest]
  rfl

end Caller

-- ============================================================================
-- Code without calls
-- ============================================================================

/-- Code in which no function is called. -/
def WithoutCalls (code : List Code) : Prop :=
  ∀ i, .instr i ∈ code → i.isForCalls = false

namespace Caller

variable {callee : Callee} {code : List Code}

/-- In code without calls, a step is a step of the machine without calls. -/
theorem step_eq (hcode : WithoutCalls code) (place : Nat) (c : Caller) :
    step callee code place c = ((JasminGen.step code place c.machine).mapError
      fun stop => (stop, c.world)).map fun s => (s.1, c.resume s.2) := by
  cases hline : code[place]? with
  | none =>
      simp only [step.eq_def, JasminGen.step.eq_def, hline]
      rfl
  | some line =>
      cases line with
      | instr i =>
          cases hjump : i.jump? with
          | none =>
              rw [step_perform hline hjump, step_exec hline hjump,
                Instr.perform_eq (hcode i (List.mem_of_getElem? hline))]
              cases i.exec c.machine <;> rfl
          | some j =>
              cases i with
              | goto l =>
                  simp only [step.eq_def, JasminGen.step.eq_def, hline, jump, JasminGen.jump]
                  cases labelPlace code l <;> rfl
              | branch condition l =>
                  have hstack : c.machine.stack = c.stack := rfl
                  simp only [step.eq_def, JasminGen.step.eq_def, hline, jump, JasminGen.jump, hstack]
                  rcases condition.test c.stack with _ | ⟨_ | _, stack⟩
                  · rfl
                  · rfl
                  · cases labelPlace code l <;> rfl
              | _ => cases hjump
      | _ =>
          simp only [step.eq_def, JasminGen.step.eq_def, hline]
          rfl

/-- Steps in code without calls are taken by the machine without calls. -/
theorem Leads.reaches (hcode : WithoutCalls code) {s s' : Nat × Caller}
    (h : Leads callee code s s') : Reaches code s.1 s.2.machine s'.1 s'.2.machine := by
  induction h with
  | refl => exact .refl
  | @tail s₁ s₂ _ hstep ih =>
      refine ih.trans (.of_step ?_)
      rw [step_eq hcode] at hstep
      cases hr : JasminGen.step code s₁.1 s₁.2.machine with
      | error stop =>
          rw [hr] at hstep
          cases hstep
      | ok next =>
          rw [hr] at hstep
          cases hstep
          rfl

theorem Stops.runs (hcode : WithoutCalls code) {s : Nat × Caller} {trap : Trap} {W : World}
    (h : Stops callee code s trap W) : Runs code s.1 s.2.machine (.trapped trap, W.printed) := by
  obtain ⟨s', hleads, hstop⟩ := h
  refine hleads.reaches hcode _ ?_
  rw [step_eq hcode] at hstop
  cases hr : JasminGen.step code s'.1 s'.2.machine with
  | error stop =>
      rw [hr] at hstop
      cases hstop
      exact .of_stop hr
  | ok next =>
      rw [hr] at hstop
      cases hstop

end Caller

-- ============================================================================
-- Evaluations on the machine
-- ============================================================================

/-- From a place and a state, the machine does what led to a result of an evaluation: it
    comes to a place with a stack, in the same world and with arrays that `kept` holds of,
    or it stops with the same trap in the same world. Slots stay as they are. -/
def Follows (callee : Callee) (code : List Code) (place : Nat) (c : Caller) {α : Type}
    (next : α → Nat × List Word) (kept : α → (Nat → List Word) → Prop) :
    Except Trap α × World → Prop
  | (.ok a, W) => ∃ arrays, kept a arrays ∧
      Caller.Leads callee code (place, c) ((next a).1, ⟨(next a).2, c.slots, W, arrays⟩)
  | (.error trap, W) => Caller.Stops callee code (place, c) trap W

namespace Follows

variable {callee : Callee} {code : List Code} {place place' : Nat} {c c' : Caller} {α β : Type}
  {next : α → Nat × List Word} {next' : β → Nat × List Word}
  {kept : α → (Nat → List Word) → Prop} {kept' : β → (Nat → List Word) → Prop}
  {stack stack' : List Word} {slots : Nat → Option Word} {W : World} {heap : List Cell}
  {arrays : Nat → List Word} {r : Except Trap α × World}

/-- The evaluation is followed from a state that the machine comes to. -/
theorem after (hleads : Caller.Leads callee code (place, c) (place', c'))
    (hslots : c'.slots = c.slots) (h : Follows callee code place' c' next kept r) :
    Follows callee code place c next kept r := by
  obtain ⟨result, W'⟩ := r
  cases result with
  | ok a =>
      obtain ⟨arrays', hkept, hrest⟩ := h
      exact ⟨arrays', hkept, .trans hleads (hslots ▸ hrest)⟩
  | error trap =>
      obtain ⟨s, hrest, hstop⟩ := h
      exact ⟨s, .trans hleads hrest, hstop⟩

theorem of_step (hstep : Caller.step callee code place c = .ok (place', c'))
    (hslots : c'.slots = c.slots) (h : Follows callee code place' c' next kept r) :
    Follows callee code place c next kept r :=
  h.after (.head hstep .refl) hslots

theorem pure {a : α} (hnext : next a = (place, stack)) (hkept : kept a arrays) :
    Follows callee code place ⟨stack, slots, W, arrays⟩ next kept
      ((Pure.pure a : Evaluation α) W) := by
  refine ⟨arrays, hkept, ?_⟩
  rw [hnext]
  exact .refl

theorem bind {x : Evaluation α} {k : α → Evaluation β}
    (hx : Follows callee code place ⟨stack, slots, W, arrays⟩ next kept (x W))
    (hk : ∀ a W' arrays', x W = (.ok a, W') → kept a arrays' →
      Follows callee code (next a).1 ⟨(next a).2, slots, W', arrays'⟩ next' kept' (k a W')) :
    Follows callee code place ⟨stack, slots, W, arrays⟩ next' kept' ((x >>= k) W) := by
  rcases Attempt.bind_cases x k W with ⟨trap, W', hr, hbind⟩ | ⟨a, W', hr, hbind⟩
  · rw [hr] at hx
    rw [hbind]
    exact hx
  · rw [hr] at hx
    obtain ⟨arrays', hkept, hleads⟩ := hx
    rw [hbind]
    exact (hk a W' arrays' hr hkept).after hleads rfl

/-- One instruction is executed first. -/
theorem perform {i : Instr} {W' : World} {arrays' : Nat → List Word}
    (hi : code[place]? = some (.instr i)) (hjump : i.jump? = none)
    (hperform : i.perform callee ⟨stack, slots, W, arrays⟩ = .ok ⟨stack', slots, W', arrays'⟩)
    (h : Follows callee code (place + 1) ⟨stack', slots, W', arrays'⟩ next kept r) :
    Follows callee code place ⟨stack, slots, W, arrays⟩ next kept r := by
  have hstep : Caller.step callee code place ⟨stack, slots, W, arrays⟩ =
      .ok (place + 1, ⟨stack', slots, W', arrays'⟩) := by
    rw [Caller.step_perform hi hjump, hperform]
    rfl
  exact of_step hstep rfl h

/-- One instruction is executed first, as without calls. -/
theorem exec {i : Instr} (hi : code[place]? = some (.instr i)) (hjump : i.jump? = none)
    (hexec : i.exec ⟨stack, slots, W.heap, W.printed⟩ = .ok ⟨stack', slots, heap, W.printed⟩)
    (h : Follows callee code (place + 1) ⟨stack', slots, { W with heap := heap }, arrays⟩ next
      kept r) :
    Follows callee code place ⟨stack, slots, W, arrays⟩ next kept r :=
  perform hi hjump (Instr.perform_of_exec (c := ⟨stack, slots, W, arrays⟩) hexec) h

/-- The machine is trapped where the evaluation is. -/
theorem trap {i : Instr} {trap : Trap} {W' : World} (hi : code[place]? = some (.instr i))
    (hjump : i.jump? = none)
    (hperform : i.perform callee ⟨stack, slots, W, arrays⟩ = .error (.trapped trap, W')) :
    Follows callee code place ⟨stack, slots, W, arrays⟩ next kept (.error trap, W') := by
  refine ⟨_, .refl, ?_⟩
  rw [Caller.step_perform hi hjump, hperform]
  rfl

theorem exec_trap {i : Instr} {trap : Trap} (hi : code[place]? = some (.instr i))
    (hjump : i.jump? = none) (hcalls : i.isForCalls = false)
    (hexec : i.exec ⟨stack, slots, W.heap, W.printed⟩ = .error (.trapped trap)) :
    Follows callee code place ⟨stack, slots, W, arrays⟩ next kept (.error trap, W) := by
  refine Follows.trap hi hjump ?_
  rw [Instr.perform_eq hcalls, Caller.machine, hexec]
  rfl

theorem label {l : Label} (h : code[place]? = some (.label l))
    (hr : Follows callee code (place + 1) c next kept r) :
    Follows callee code place c next kept r :=
  of_step (Caller.step_label h) rfl hr

theorem goto {l : Label} (h : code[place]? = some (.instr (.goto l)))
    (hl : labelPlace code l = some place') (hr : Follows callee code place' c next kept r) :
    Follows callee code place c next kept r :=
  of_step (Caller.step_goto h hl) rfl hr

theorem taken {condition : Branch} {l : Label}
    (h : code[place]? = some (.instr (.branch condition l)))
    (htest : condition.test stack = some (true, stack')) (hl : labelPlace code l = some place')
    (hr : Follows callee code place' ⟨stack', slots, W, arrays⟩ next kept r) :
    Follows callee code place ⟨stack, slots, W, arrays⟩ next kept r :=
  of_step (Caller.step_taken h htest hl) rfl hr

theorem notTaken {condition : Branch} {l : Label}
    (h : code[place]? = some (.instr (.branch condition l)))
    (htest : condition.test stack = some (false, stack'))
    (hr : Follows callee code (place + 1) ⟨stack', slots, W, arrays⟩ next kept r) :
    Follows callee code place ⟨stack, slots, W, arrays⟩ next kept r :=
  of_step (Caller.step_notTaken h htest) rfl hr

/-- The code that turns operands into a boolean. -/
theorem condition {negated : Branch} {l l' : Label} {b : Bool}
    (hcode : Linked code place (Fragment.codeAll (conditionParts negated l l')))
    (htest : negated.test stack = some (!b, stack'))
    (hr : Follows callee code (place + (Fragment.codeAll (conditionParts negated l l')).length)
      ⟨.boolean b :: stack', slots, W, arrays⟩ next kept r) :
    Follows callee code place ⟨stack, slots, W, arrays⟩ next kept r := by
  have hlength : (Fragment.codeAll (conditionParts negated l l')).length = 7 := by
    simp [conditionParts]
  rw [hlength] at hr
  simp only [conditionParts, Fragment.codeAll_cons, Fragment.code_instr, Fragment.code_label,
    Fragment.codeAll_nil, List.cons_append, List.nil_append, Linked.cons_instr_iff,
    Linked.cons_label_iff] at hcode
  obtain ⟨hbranch, hone, hgoto, hl, hlplace, hzero, hl', hlplace', hbox, -⟩ := hcode
  cases b with
  | false =>
      refine taken hbranch htest hlplace (label hl (exec hzero rfl rfl (label hl' ?_)))
      exact exec hbox rfl rfl hr
  | true =>
      refine notTaken hbranch htest (exec hone rfl rfl (goto hgoto hlplace' (label hl' ?_)))
      exact exec hbox rfl rfl hr

end Follows

end JasminGen
