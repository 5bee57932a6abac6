/-
  JasminGen.Proofs.Machine

  A stack machine for generated code without calls of functions. Integers have 32 bits
  and wrap around, wrappers are values without identity, and lists are the objects of
  the support class `List`: a list that is made is empty, elements are added at its end,
  and positions count from zero. There are as many slots and there is as much stack as
  the code asks for. A jump goes to the place where its label is declared.

  Main definitions: `Machine`, `Instr.exec`, `step`, `Runs`, `Linked`, `Reaches`. Main
  results: `labelPlace_eq`, `linked_of_nodup`, `installed_self`, `Runs.unique`.
-/

import JasminGen.Proofs.Interp
import JasminGen.Proofs.Labels

namespace JasminGen

-- ============================================================================
-- States
-- ============================================================================

/-- What a place of the operand stack, a slot or a list holds. -/
inductive Word where
  /-- A primitive value. -/
  | int (value : Int32)
  /-- A `java/lang/Integer`. -/
  | integer (value : Int32)
  /-- A `java/lang/Boolean`. -/
  | boolean (value : Bool)
  | ref (address : Nat)
  | text (value : String)
  /-- The standard output. -/
  | stream
  | null
  deriving DecidableEq

def Word.isPrimitive : Word → Bool
  | .int _ => true
  | _ => false

/-- Whether a word is a reference to an object that has an identity, or to none. -/
def Word.isObject : Word → Bool
  | .ref _ | .null => true
  | _ => false

inductive Cell where
  /-- An object whose constructor was not called yet. -/
  | raw (className : String)
  | plain (className : String)
  | list (elements : List Word)
  | fptr (receiver : Word) (function : String)
  deriving DecidableEq

structure Machine where
  stack : List Word
  slots : Nat → Option Word
  heap : List Cell
  printed : List Printed

/-- Why the machine stops. -/
inductive Stop where
  | returned
  | trapped (trap : Trap)
  deriving DecidableEq

namespace Machine

/-- The machine that calls the constructor of the entry class on a new object. -/
def start : Machine :=
  ⟨[], fun slot => if slot = receiverSlot then some (.ref 0) else none, [.raw entryClass], []⟩

def illegal {α : Type} : Except Stop α := .error (.trapped .illegal)

/-- The same machine with another stack. -/
def withStack (m : Machine) (stack : List Word) : Except Stop Machine :=
  .ok { m with stack := stack }

def store (m : Machine) (slot : Nat) (w : Word) (stack : List Word) : Except Stop Machine :=
  .ok { m with stack := stack, slots := fun s => if s = slot then some w else m.slots s }

def update (m : Machine) (address : Nat) (cell : Cell) (stack : List Word) :
    Except Stop Machine :=
  .ok { m with stack := stack, heap := m.heap.set address cell }

def print (m : Machine) (p : Printed) (stack : List Word) : Except Stop Machine :=
  .ok { m with stack := stack, printed := m.printed ++ [p] }

/-- The class of the object that a word refers to. -/
def className? (m : Machine) : Word → Option String
  | .integer _ => some "java/lang/Integer"
  | .boolean _ => some "java/lang/Boolean"
  | .text _ => some "java/lang/String"
  | .ref address =>
    match m.heap[address]? with
    | some (.plain className) => some className
    | some (.list _) => some listClass
    | some (.fptr _ _) => some fptrClass
    | _ => none
  | _ => none

/-- Call the constructor of an object of a class. -/
def construct (m : Machine) (className : String) (address : Nat) (cell : Cell)
    (stack : List Word) : Except Stop Machine :=
  if m.heap[address]? = some (.raw className) then m.update address cell stack else illegal

end Machine

-- ============================================================================
-- Instructions
-- ============================================================================

/-- Call a method. Copies of lists, calls of functions and the lists of their arguments
    belong to calls, and are not described. -/
def Method.exec (method : Method) (m : Machine) : Except Stop Machine :=
  match method, m.stack with
  | .objectInit, .ref address :: stack =>
    match m.heap[address]? with
    | some (.raw className) => m.update address (.plain className) stack
    | _ => Machine.illegal
  | .integerValueOf, .int n :: stack => m.withStack (.integer n :: stack)
  | .integerIntValue, .integer n :: stack => m.withStack (.int n :: stack)
  | .booleanValueOf, .int n :: stack => m.withStack (.boolean (n ≠ 0) :: stack)
  | .booleanBooleanValue, .boolean b :: stack => m.withStack (.int (if b then 1 else 0) :: stack)
  | .listInit, .ref address :: stack => m.construct listClass address (.list []) stack
  | .listAddElement, w :: .ref address :: stack =>
    match m.heap[address]? with
    | some (.list elements) =>
      if w.isPrimitive then Machine.illegal else m.update address (.list (elements ++ [w])) stack
    | _ => Machine.illegal
  | .listGetElement, .int position :: .ref address :: stack =>
    match m.heap[address]? with
    | some (.list elements) =>
      if position < 0 then .error (.trapped .indexOutOfRange)
      else
        match elements[position.toInt.toNat]? with
        | some w => m.withStack (w :: stack)
        | none => .error (.trapped .indexOutOfRange)
    | _ => Machine.illegal
  | .listGetSize, .ref address :: stack =>
    match m.heap[address]? with
    | some (.list elements) => m.withStack (.int (Int32.ofNat elements.length) :: stack)
    | _ => Machine.illegal
  | .fptrInit, .text function :: receiver :: .ref address :: stack =>
    m.construct fptrClass address (.fptr receiver function) stack
  | .printlnInt, .int n :: .stream :: stack => m.print (.int n) stack
  | .printlnBool, .int n :: .stream :: stack => m.print (.bool (n ≠ 0)) stack
  | _, _ => Machine.illegal

/-- Execute an instruction that does not jump. -/
def Instr.exec (i : Instr) (m : Machine) : Except Stop Machine :=
  match i, m.stack with
  | .nop, stack => m.withStack stack
  | .aconstNull, stack => m.withStack (.null :: stack)
  | .iconst0, stack => m.withStack (.int 0 :: stack)
  | .iconst1, stack => m.withStack (.int 1 :: stack)
  | .ldcInt n, stack => m.withStack (.int n :: stack)
  | .ldcText text, stack => m.withStack (.text text :: stack)
  | .aload slot, stack =>
    match m.slots slot with
    | some w => if w.isPrimitive then Machine.illegal else m.withStack (w :: stack)
    | none => .error (.trapped .unassigned)
  | .astore slot, w :: stack => if w.isPrimitive then Machine.illegal else m.store slot w stack
  | .iload slot, stack =>
    match m.slots slot with
    | some (.int n) => m.withStack (.int n :: stack)
    | some _ => Machine.illegal
    | none => .error (.trapped .unassigned)
  | .istore slot, .int n :: stack => m.store slot (.int n) stack
  | .decrement slot, stack =>
    match m.slots slot with
    | some (.int n) => m.store slot (.int (n - 1)) stack
    | some _ => Machine.illegal
    | none => .error (.trapped .unassigned)
  | .pop, _ :: stack => m.withStack stack
  | .dup, w :: stack => m.withStack (w :: w :: stack)
  | .iadd, .int b :: .int a :: stack => m.withStack (.int (a + b) :: stack)
  | .isub, .int b :: .int a :: stack => m.withStack (.int (a - b) :: stack)
  | .imul, .int b :: .int a :: stack => m.withStack (.int (a * b) :: stack)
  | .idiv, .int b :: .int a :: stack =>
    if b = 0 then .error (.trapped .divisionByZero) else m.withStack (.int (a / b) :: stack)
  | .ineg, .int a :: stack => m.withStack (.int (-a) :: stack)
  | .ixor, .int b :: .int a :: stack => m.withStack (.int (a ^^^ b) :: stack)
  | .ret, _ => .error .returned
  | .getSystemOut, stack => m.withStack (.stream :: stack)
  | .new className, stack =>
    .ok { m with stack := .ref m.heap.length :: stack, heap := m.heap ++ [.raw className] }
  | .checkcast className, w :: stack =>
    if w = .null ∨ m.className? w = some className then m.withStack (w :: stack)
    else Machine.illegal
  | .invoke method, _ => method.exec m
  | _, _ => Machine.illegal

/-- Whether a branch is taken, and the stack without its operands. Wrappers have no
    identity, so references are compared if they lead to other objects, or to none. -/
def Branch.test : Branch → List Word → Option (Bool × List Word)
  | .ifeq, .int a :: stack => some (a = 0, stack)
  | .ifne, .int a :: stack => some (a ≠ 0, stack)
  | .ifgt, .int a :: stack => some (0 < a, stack)
  | .ifIcmpne, .int b :: .int a :: stack => some (a ≠ b, stack)
  | .ifIcmpge, .int b :: .int a :: stack => some (b ≤ a, stack)
  | .ifIcmple, .int b :: .int a :: stack => some (a ≤ b, stack)
  | .ifAcmpne, b :: a :: stack =>
    if a.isObject && b.isObject then some (a ≠ b, stack) else none
  | _, _ => none

/-- The negated branch of a comparison is taken where the comparison does not hold. -/
theorem OrderOp.negated_test (op : OrderOp) (a b : Int32) (stack : List Word) :
    op.negated.test (.int b :: .int a :: stack) = some (!op.holds a b, stack) := by
  cases op with
  | lt => simp [negated, Branch.test, holds, ← Int32.not_lt]
  | gt => simp [negated, Branch.test, holds, ← Int32.not_lt]

/-- The right operand of a connective is skipped where the left one decides. -/
theorem LogicOp.skip_test (op : LogicOp) (a : Bool) (stack : List Word) :
    op.skip.test (.int (if a then 1 else 0) :: stack) = some (op.decides a, stack) := by
  cases op <;> cases a <;> rfl

/-- A decided connective has the value of its left operand. -/
theorem LogicOp.decided_exec {op : LogicOp} {a : Bool} (h : op.decides a = true) (m : Machine) :
    op.decided.exec m = m.withStack (.int (if a then 1 else 0) :: m.stack) := by
  cases op <;> cases a <;> first | rfl | cases h

/-- The place where a label is declared. -/
def labelPlace (code : List Code) (l : Label) : Option Nat :=
  code.findIdx? fun c => c = .label l

def jump (code : List Code) (l : Label) (m : Machine) : Except Stop (Nat × Machine) :=
  match labelPlace code l with
  | some place => .ok (place, m)
  | none => Machine.illegal

/-- One step of the machine at a place of the code. -/
def step (code : List Code) (place : Nat) (m : Machine) : Except Stop (Nat × Machine) :=
  match code[place]? with
  | some (.label _) => .ok (place + 1, m)
  | some (.instr (.goto l)) => jump code l m
  | some (.instr (.branch condition l)) =>
    match condition.test m.stack with
    | some (true, stack) => jump code l { m with stack := stack }
    | some (false, stack) => .ok (place + 1, { m with stack := stack })
    | none => Machine.illegal
  | some (.instr i) => (i.exec m).map fun m' => (place + 1, m')
  | _ => Machine.illegal

/-- Run the machine for at most the given number of steps. It stops for a reason, and
    with what it has printed. -/
def runFor (code : List Code) : Nat → Nat → Machine → Option (Stop × List Printed)
  | 0, _, _ => none
  | fuel + 1, place, m =>
    match step code place m with
    | .ok (place', m') => runFor code fuel place' m'
    | .error stop => some (stop, m.printed)

/-- From a place and a state, the machine stops with the result. -/
def Runs (code : List Code) (place : Nat) (m : Machine) (result : Stop × List Printed) : Prop :=
  ∃ fuel, runFor code fuel place m = some result

-- ============================================================================
-- Code at a place
-- ============================================================================

/-- The lines `segment` stand in the code from the place on. -/
def At (code : List Code) (place : Nat) (segment : List Code) : Prop :=
  ∀ (i : Nat) (c : Code), segment[i]? = some c → code[place + i]? = some c

namespace At

variable {code segment rest : List Code} {place : Nat} {c : Code}

theorem refl (code : List Code) : At code 0 code := by
  intro i c hi
  rwa [Nat.zero_add]

theorem cons_iff : At code place (c :: segment) ↔
    code[place]? = some c ∧ At code (place + 1) segment := by
  constructor
  · intro h
    refine ⟨h 0 c rfl, fun i d hi => ?_⟩
    rw [Nat.add_right_comm, Nat.add_assoc]
    exact h (i + 1) d hi
  · rintro ⟨hc, h⟩ i d hi
    cases i with
    | zero =>
        obtain rfl : c = d := Option.some.inj hi
        exact hc
    | succ i =>
        rw [← Nat.add_assoc, Nat.add_right_comm]
        exact h i d hi

theorem append_iff : At code place (segment ++ rest) ↔
    At code place segment ∧ At code (place + segment.length) rest := by
  induction segment generalizing place with
  | nil => simp [At]
  | cons d segment ih =>
      rw [List.cons_append, cons_iff, cons_iff, ih, and_assoc, List.length_cons, Nat.add_assoc,
        Nat.add_comm 1]

end At

/-- In code that declares its labels once, a label is found where it is declared. -/
theorem labelPlace_eq {code : List Code} {l : Label} {place : Nat}
    (hnodup : (declared code).Nodup) (h : code[place]? = some (.label l)) :
    labelPlace code l = some place := by
  induction code generalizing place with
  | nil => simp at h
  | cons c rest ih =>
      rw [labelPlace, List.findIdx?_cons]
      cases place with
      | zero =>
          obtain rfl : c = .label l := by simpa using h
          simp
      | succ place =>
          have hrest : rest[place]? = some (.label l) := by simpa using h
          have hne : c ≠ .label l := by
            rintro rfl
            rw [declared_cons_label, List.nodup_cons] at hnodup
            exact hnodup.1 (List.mem_filterMap.mpr ⟨_, List.mem_of_getElem? hrest, rfl⟩)
          have hnodup' : (declared rest).Nodup := by
            rw [declared, List.filterMap_cons] at hnodup
            split at hnodup
            · exact hnodup
            · exact (List.nodup_cons.mp hnodup).2
          have hplace := ih hnodup' hrest
          rw [labelPlace] at hplace
          simp [hne, hplace]

-- ============================================================================
-- Linked code
-- ============================================================================

/-- The lines `segment` stand in the code from the place on, and each of their labels is
    found where they declare it. -/
def Linked (code : List Code) (place : Nat) (segment : List Code) : Prop :=
  At code place segment ∧
    ∀ (i : Nat) (l : Label), segment[i]? = some (.label l) → labelPlace code l = some (place + i)

namespace Linked

variable {code segment rest : List Code} {place : Nat}

@[simp] theorem nil : Linked code place [] := by
  simp [Linked, At]

@[simp] theorem cons_instr_iff {i : Instr} : Linked code place (.instr i :: segment) ↔
    code[place]? = some (.instr i) ∧ Linked code (place + 1) segment := by
  rw [Linked, At.cons_iff, and_assoc]
  refine and_congr_right fun _ => and_congr_right fun _ => ?_
  constructor
  · intro h j l hj
    rw [h (j + 1) l hj, Nat.add_assoc, Nat.add_comm 1]
  · intro h j l hj
    cases j with
    | zero => cases hj
    | succ j => rw [h j l hj, Nat.add_assoc, Nat.add_comm 1]

@[simp] theorem cons_label_iff {l : Label} : Linked code place (.label l :: segment) ↔
    code[place]? = some (.label l) ∧ labelPlace code l = some place ∧
      Linked code (place + 1) segment := by
  rw [Linked, At.cons_iff, Linked, and_assoc]
  refine and_congr_right fun _ => ?_
  constructor
  · rintro ⟨hat, h⟩
    refine ⟨h 0 l rfl, hat, fun j k hj => ?_⟩
    rw [h (j + 1) k hj, Nat.add_assoc, Nat.add_comm 1]
  · rintro ⟨hl, hat, h⟩
    refine ⟨hat, fun j k hj => ?_⟩
    cases j with
    | zero =>
        cases hj
        exact hl
    | succ j => rw [h j k hj, Nat.add_assoc, Nat.add_comm 1]

@[simp] theorem append_iff : Linked code place (segment ++ rest) ↔
    Linked code place segment ∧ Linked code (place + segment.length) rest := by
  rw [Linked, At.append_iff, Linked, Linked]
  constructor
  · rintro ⟨⟨hat, hat'⟩, h⟩
    refine ⟨⟨hat, fun j l hj => h j l ?_⟩, hat', fun j l hj => ?_⟩
    · rw [List.getElem?_append_left (List.getElem?_eq_some_iff.mp hj).1, hj]
    · rw [h (segment.length + j) l, Nat.add_assoc]
      rw [List.getElem?_append_right (Nat.le_add_right _ _), Nat.add_sub_cancel_left, hj]
  · rintro ⟨⟨hat, h⟩, hat', h'⟩
    refine ⟨⟨hat, hat'⟩, fun j l hj => ?_⟩
    by_cases hlt : j < segment.length
    · rw [List.getElem?_append_left hlt] at hj
      exact h j l hj
    · rw [List.getElem?_append_right (by omega)] at hj
      rw [h' _ l hj]
      congr 1
      omega

end Linked

/-- Lines that declare their labels once are linked in any code that does not declare
    these labels before. -/
theorem linked_of_nodup {before segment after : List Code} (hnodup : (declared segment).Nodup)
    (hbefore : ∀ l ∈ declared segment, l ∉ declared before) :
    Linked (before ++ segment ++ after) before.length segment := by
  refine ⟨?_, fun i l hi => ?_⟩
  · have hall := At.refl (before ++ segment ++ after)
    rw [At.append_iff, At.append_iff, Nat.zero_add] at hall
    exact hall.1.2
  · have hplace := labelPlace_eq hnodup hi
    have hnone : before.findIdx? (fun c => decide (c = .label l)) = none := by
      rw [List.findIdx?_eq_none_iff]
      intro c hc
      rw [decide_eq_false_iff_not]
      rintro rfl
      refine hbefore l (mem_declared.mpr ⟨i, hi⟩) ?_
      exact mem_declared.mpr (List.mem_iff_getElem?.mp hc)
    rw [labelPlace] at hplace ⊢
    rw [List.append_assoc, List.findIdx?_append, hnone, List.findIdx?_append, hplace]
    simp [Nat.add_comm]

/-- The number of lines of fragments. -/
def codeSize (parts : List Fragment) : Nat :=
  (Fragment.codeAll parts).length

/-- The lines of fragments stand in the code from the place on. -/
def Installed (code : List Code) (place : Nat) (parts : List Fragment) : Prop :=
  Linked code place (Fragment.codeAll parts)

section Installed

variable {code : List Code} {place : Nat} {parts rest : List Fragment}

@[simp] theorem codeSize_nil : codeSize [] = 0 := by
  simp [codeSize]

@[simp] theorem codeSize_cons_instr (i : Instr) (rest : List Fragment) :
    codeSize (.instr i :: rest) = codeSize rest + 1 := by
  simp [codeSize]

@[simp] theorem codeSize_cons_label (l : Label) (rest : List Fragment) :
    codeSize (.label l :: rest) = codeSize rest + 1 := by
  simp [codeSize]

@[simp] theorem codeSize_cons_expr (e : Expr) (parts rest : List Fragment) :
    codeSize (.expr e parts :: rest) = codeSize parts + codeSize rest := by
  simp [codeSize]

@[simp] theorem codeSize_cons_stmt (s : Stmt) (parts rest : List Fragment) :
    codeSize (.stmt s parts :: rest) = codeSize parts + codeSize rest := by
  simp [codeSize]

@[simp] theorem codeSize_append (parts rest : List Fragment) :
    codeSize (parts ++ rest) = codeSize parts + codeSize rest := by
  simp [codeSize]

@[simp] theorem installed_cons_instr {i : Instr} : Installed code place (.instr i :: rest) ↔
    code[place]? = some (.instr i) ∧ Installed code (place + 1) rest := by
  simp [Installed]

@[simp] theorem installed_cons_label {l : Label} : Installed code place (.label l :: rest) ↔
    code[place]? = some (.label l) ∧ labelPlace code l = some place ∧
      Installed code (place + 1) rest := by
  simp [Installed]

@[simp] theorem installed_cons_expr {e : Expr} : Installed code place (.expr e parts :: rest) ↔
    Installed code place parts ∧ Installed code (place + codeSize parts) rest := by
  simp [Installed, codeSize]

@[simp] theorem installed_cons_stmt {s : Stmt} : Installed code place (.stmt s parts :: rest) ↔
    Installed code place parts ∧ Installed code (place + codeSize parts) rest := by
  simp [Installed, codeSize]

@[simp] theorem installed_append : Installed code place (parts ++ rest) ↔
    Installed code place parts ∧ Installed code (place + codeSize parts) rest := by
  simp [Installed, codeSize]

/-- Fragments that declare their labels once are installed in their own code. -/
theorem installed_self (h : (declared (Fragment.codeAll parts)).Nodup) :
    Installed (Fragment.codeAll parts) 0 parts := by
  have hlinked : Linked ([] ++ Fragment.codeAll parts ++ []) 0 (Fragment.codeAll parts) :=
    linked_of_nodup h (by simp)
  rwa [List.nil_append, List.append_nil] at hlinked

end Installed

-- ============================================================================
-- Steps in a row
-- ============================================================================

section Runs

variable {code : List Code} {place place' : Nat} {m m' : Machine} {result : Stop × List Printed}

theorem Runs.of_step (h : step code place m = .ok (place', m')) (hrun : Runs code place' m' result) :
    Runs code place m result := by
  obtain ⟨fuel, hfuel⟩ := hrun
  refine ⟨fuel + 1, ?_⟩
  rw [runFor, h]
  exact hfuel

theorem Runs.of_stop {stop : Stop} (h : step code place m = .error stop) :
    Runs code place m (stop, m.printed) := by
  refine ⟨1, ?_⟩
  rw [runFor, h]

/-- More steps do not change how the machine stops. -/
theorem runFor_mono {fuel : Nat} (h : runFor code fuel place m = some result) (more : Nat) :
    runFor code (fuel + more) place m = some result := by
  induction fuel generalizing place m with
  | zero => cases h
  | succ fuel ih =>
      rw [Nat.succ_add, runFor]
      rw [runFor] at h
      cases hstep : step code place m with
      | error stop =>
          rw [hstep] at h
          exact h
      | ok next =>
          rw [hstep] at h
          exact ih h

theorem Runs.unique {result' : Stop × List Printed} (h : Runs code place m result)
    (h' : Runs code place m result') : result = result' := by
  obtain ⟨fuel, hfuel⟩ := h
  obtain ⟨fuel', hfuel'⟩ := h'
  have hmore := runFor_mono hfuel fuel'
  rw [Nat.add_comm, runFor_mono hfuel' fuel] at hmore
  exact (Option.some.inj hmore).symm

theorem step_exec {i : Instr} (hi : code[place]? = some (.instr i)) (hjump : i.jump? = none) :
    step code place m = (i.exec m).map fun m' => (place + 1, m') := by
  cases i with
  | goto l => cases hjump
  | branch condition l => cases hjump
  | _ => simp only [step.eq_def, hi]

/-- An instruction that stops the machine. -/
theorem Runs.of_exec {i : Instr} {stop : Stop} (hi : code[place]? = some (.instr i))
    (hjump : i.jump? = none) (hexec : i.exec m = .error stop) :
    Runs code place m (stop, m.printed) := by
  refine .of_stop ?_
  rw [step_exec hi hjump, hexec]
  rfl

theorem step_label {l : Label} (h : code[place]? = some (.label l)) :
    step code place m = .ok (place + 1, m) := by
  simp only [step.eq_def, h]

theorem step_goto {l : Label} (h : code[place]? = some (.instr (.goto l)))
    (hl : labelPlace code l = some place') : step code place m = .ok (place', m) := by
  simp only [step.eq_def, h, jump, hl]

theorem step_taken {condition : Branch} {l : Label} {stack : List Word}
    (h : code[place]? = some (.instr (.branch condition l)))
    (htest : condition.test m.stack = some (true, stack)) (hl : labelPlace code l = some place') :
    step code place m = .ok (place', { m with stack := stack }) := by
  simp only [step.eq_def, h, htest, jump, hl]

theorem step_notTaken {condition : Branch} {l : Label} {stack : List Word}
    (h : code[place]? = some (.instr (.branch condition l)))
    (htest : condition.test m.stack = some (false, stack)) :
    step code place m = .ok (place + 1, { m with stack := stack }) := by
  simp only [step.eq_def, h, htest]

/-- The machine goes from one place and state to another one, so it stops as it does from
    there. -/
def Reaches (code : List Code) (place : Nat) (m : Machine) (place' : Nat) (m' : Machine) : Prop :=
  ∀ result, Runs code place' m' result → Runs code place m result

theorem Reaches.refl : Reaches code place m place m :=
  fun _ h => h

theorem Reaches.trans {place₁ : Nat} {m₁ : Machine} (h : Reaches code place m place₁ m₁)
    (h' : Reaches code place₁ m₁ place' m') : Reaches code place m place' m' :=
  fun result hrun => h result (h' result hrun)

theorem Reaches.of_step (h : step code place m = .ok (place', m')) :
    Reaches code place m place' m' :=
  fun _ hrun => .of_step h hrun

theorem Reaches.exec {i : Instr} (hi : code[place]? = some (.instr i)) (hjump : i.jump? = none)
    (hexec : i.exec m = .ok m') : Reaches code place m (place + 1) m' := by
  refine .of_step ?_
  rw [step_exec hi hjump, hexec]
  rfl

theorem Reaches.label {l : Label} (h : code[place]? = some (.label l)) :
    Reaches code place m (place + 1) m :=
  .of_step (step_label h)

theorem Reaches.goto {l : Label} (h : code[place]? = some (.instr (.goto l)))
    (hl : labelPlace code l = some place') : Reaches code place m place' m :=
  .of_step (step_goto h hl)

theorem Reaches.taken {condition : Branch} {l : Label} {stack : List Word}
    (h : code[place]? = some (.instr (.branch condition l)))
    (htest : condition.test m.stack = some (true, stack)) (hl : labelPlace code l = some place') :
    Reaches code place m place' { m with stack := stack } :=
  .of_step (step_taken h htest hl)

theorem Reaches.notTaken {condition : Branch} {l : Label} {stack : List Word}
    (h : code[place]? = some (.instr (.branch condition l)))
    (htest : condition.test m.stack = some (false, stack)) :
    Reaches code place m (place + 1) { m with stack := stack } :=
  .of_step (step_notTaken h htest)

end Runs

end JasminGen
