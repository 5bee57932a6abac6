/-
  JasminGen.Proofs.Calls.Simulation

  The code of expressions with calls puts the value of the expression on the stack, for
  any meaning of calling a function, on any stack and in any heap. Where the evaluation
  is trapped, the machine stops with the same trap, in the same world.

  The machine follows the evaluation step by step, with one lemma for each construct. The
  code of arguments is described apart: it adds what is passed to the list of arguments,
  whose address is on the stack.

  Main definitions: `CallHost`, `CallHost.Computes`, `CallHost.Collects`. Main results:
  `CallHost.computes_of_lowered`, `CallHost.collects_of_lowered`.
-/

import JasminGen.Proofs.Calls.Machine
import JasminGen.Proofs.Slots

namespace JasminGen

open Evaluation

-- ============================================================================
-- Operations on the machine
-- ============================================================================

/-- The stack after a value of the type: there is no value of the type `void`. -/
def Ty.leave (ty : Ty) (w : Word) (stack : List Word) : List Word :=
  if ty = .void then stack else w :: stack

theorem Ty.leave_of_ne {ty : Ty} (h : ty ≠ .void) (w : Word) (stack : List Word) :
    ty.leave w stack = w :: stack := if_neg h

theorem Ty.className?_eq_none {ty : Ty} : ty.className? = none ↔ ty = .void := by
  cases ty <;> simp [className?]

section Operations

variable {callee : Callee} {code : List Code} {place : Nat} {stack : List Word}
  {slots : Nat → Option Word} {W : World} {arrays : Nat → List Word} {α : Type}
  {next : α → Nat × List Word} {kept : α → (Nat → List Word) → Prop}

theorem Follows.compute (op : ArithOp) (a b : Int32) {k : Int32 → Evaluation α}
    (hi : code[place]? = some (.instr op.instr))
    (hk : ∀ n, Follows callee code (place + 1) ⟨.int n :: stack, slots, W, arrays⟩ next kept
      (k n W)) :
    Follows callee code place ⟨.int b :: .int a :: stack, slots, W, arrays⟩ next kept
      ((op.compute a b >>= k) W) := by
  have hwrap : ∀ n, op.instr.exec ⟨.int b :: .int a :: stack, slots, W.heap, W.printed⟩ =
      .ok ⟨.int n :: stack, slots, W.heap, W.printed⟩ →
      Follows callee code place ⟨.int b :: .int a :: stack, slots, W, arrays⟩ next kept (k n W) :=
    fun n hexec => .exec hi (ArithOp.instr_jump? op) hexec (hk n)
  cases op with
  | add =>
      rw [ArithOp.compute_add]
      exact hwrap _ rfl
  | sub =>
      rw [ArithOp.compute_sub]
      exact hwrap _ rfl
  | mul =>
      rw [ArithOp.compute_mul]
      exact hwrap _ rfl
  | div =>
      rw [ArithOp.compute_div]
      split
      · next hzero => exact .exec_trap hi rfl rfl (if_pos hzero)
      · next hzero => exact hwrap _ (if_neg hzero)

theorem Follows.read {slot : Nat} {value : Option Word} {k : Word → Evaluation α}
    (hi : code[place]? = some (.instr (.aload slot))) (hslot : slots slot = value)
    (hk : ∀ w, Follows callee code (place + 1) ⟨w :: stack, slots, W, arrays⟩ next kept (k w W)) :
    Follows callee code place ⟨stack, slots, W, arrays⟩ next kept
      ((Evaluation.read value >>= k) W) := by
  cases value with
  | none =>
      refine .exec_trap hi rfl rfl ?_
      simp only [Instr.exec.eq_def, hslot]
  | some w =>
      rw [Evaluation.read]
      split
      · next hprimitive =>
          refine .exec_trap hi rfl rfl ?_
          simp only [Instr.exec.eq_def, hslot, hprimitive]
          rfl
      · next hboxed =>
          refine .exec hi rfl ?_ (hk w)
          simp only [Instr.exec.eq_def, hslot, hboxed]
          rfl

/-- A method of a list is not called on anything else. -/
theorem exec_of_listAt?_none {heap : List Cell} {printed : List Printed} {list : Word}
    (h : listAt? heap list = none) :
    (∀ n, Method.listGetElement.exec ⟨.int n :: list :: stack, slots, heap, printed⟩ =
        Machine.illegal) ∧
      (∀ w, Method.listAddElement.exec ⟨w :: list :: stack, slots, heap, printed⟩ =
        Machine.illegal) ∧
      Method.listGetSize.exec ⟨list :: stack, slots, heap, printed⟩ = Machine.illegal := by
  cases list with
  | ref address =>
      cases hcell : heap[address]? with
      | none => simp only [Method.exec.eq_def, hcell, implies_true, and_self]
      | some cell =>
          cases cell with
          | list elements => simp [listAt?, hcell] at h
          | _ => simp only [Method.exec.eq_def, hcell, implies_true, and_self]
  | _ => exact ⟨fun _ => rfl, fun _ => rfl, rfl⟩

theorem Follows.element {list : Word} {n : Int32} {k : Word → Evaluation α}
    (hi : code[place]? = some (.instr (.invoke .listGetElement)))
    (hk : ∀ w, Follows callee code (place + 1) ⟨w :: stack, slots, W, arrays⟩ next kept (k w W)) :
    Follows callee code place ⟨.int n :: list :: stack, slots, W, arrays⟩ next kept
      ((do k (← Evaluation.element (← asList list) n)) W) := by
  cases hlist : listAt? W.heap list with
  | none =>
      rw [Attempt.bind_error (asList_of_none hlist)]
      exact .exec_trap hi rfl rfl ((exec_of_listAt?_none hlist).1 n)
  | some elements =>
      obtain ⟨address, rfl, hcell⟩ := listAt?_eq_some.mp hlist
      rw [Attempt.bind_ok (asList_of_some hlist), Evaluation.element]
      split
      · next hneg =>
          refine .exec_trap hi rfl rfl ?_
          simp only [Instr.exec.eq_def, Method.exec.eq_def, hcell, if_pos hneg]
      · next hneg =>
          cases hw : elements[n.toInt.toNat]? with
          | none =>
              refine .exec_trap hi rfl rfl ?_
              simp only [Instr.exec.eq_def, Method.exec.eq_def, hcell, if_neg hneg, hw]
          | some w =>
              refine .exec hi rfl ?_ (hk w)
              simp only [Instr.exec.eq_def, Method.exec.eq_def, hcell, if_neg hneg, hw]
              rfl

theorem Follows.append {list w : Word} {k : Unit → Evaluation α}
    (hi : code[place]? = some (.instr (.invoke .listAddElement))) (hw : w.isPrimitive = false)
    (hk : ∀ W', W'.heap.length = W.heap.length →
      Follows callee code (place + 1) ⟨stack, slots, W', arrays⟩ next kept (k () W')) :
    Follows callee code place ⟨w :: list :: stack, slots, W, arrays⟩ next kept
      ((Evaluation.append list w >>= k) W) := by
  cases hlist : listAt? W.heap list with
  | none =>
      have happend : Evaluation.append list w W = (.error .illegal, W) := by
        simp only [Evaluation.append.eq_def, hlist]
      rw [Attempt.bind_error happend]
      exact .exec_trap hi rfl rfl ((exec_of_listAt?_none hlist).2.1 w)
  | some elements =>
      obtain ⟨address, rfl, hcell⟩ := listAt?_eq_some.mp hlist
      have happend : Evaluation.append (.ref address) w W =
          (.ok (), { W with heap := W.heap.set address (.list (elements ++ [w])) }) := by
        simp only [Evaluation.append.eq_def, hlist]
      rw [Attempt.bind_ok happend]
      refine .exec hi rfl ?_ (hk _ List.length_set)
      simp only [Instr.exec.eq_def, Method.exec.eq_def, hcell, hw]
      rfl

theorem Follows.size {list : Word} {k : List Word → Evaluation α}
    (hi : code[place]? = some (.instr (.invoke .listGetSize)))
    (hk : ∀ elements, Follows callee code (place + 1)
      ⟨.int (Int32.ofNat elements.length) :: stack, slots, W, arrays⟩ next kept (k elements W)) :
    Follows callee code place ⟨list :: stack, slots, W, arrays⟩ next kept
      ((asList list >>= k) W) := by
  cases hlist : listAt? W.heap list with
  | none =>
      rw [Attempt.bind_error (asList_of_none hlist)]
      exact .exec_trap hi rfl rfl (exec_of_listAt?_none hlist).2.2
  | some elements =>
      obtain ⟨address, rfl, hcell⟩ := listAt?_eq_some.mp hlist
      rw [Attempt.bind_ok (asList_of_some hlist)]
      refine .exec hi rfl ?_ (hk elements)
      simp only [Instr.exec.eq_def, Method.exec.eq_def, hcell]
      rfl

/-- A result is narrowed to the class that stands for the type, or dropped. -/
theorem Follows.narrow {A : Activation} {e : Expr} {ty : Ty} {w : Word}
    {next : Word → Nat × List Word} {kept : Word → (Nat → List Word) → Prop}
    (hty : A.symbols.typeOf A.id e = .ok ty) (hi : code[place]? = some (.instr (narrowing ty)))
    (hnext : next w = (place + 1, ty.leave w stack)) (hkept : kept w arrays) :
    Follows callee code place ⟨w :: stack, slots, W, arrays⟩ next kept (A.narrow e w W) := by
  simp only [Activation.narrow, hty]
  cases hclass : ty.className? with
  | none =>
      obtain rfl := Ty.className?_eq_none.mp hclass
      exact .exec hi rfl rfl (.pure hnext hkept)
  | some className =>
      rw [Ty.leave_of_ne (Ty.ne_void_of_className? hclass)] at hnext
      simp only [narrowing, hclass] at hi
      simp only [Evaluation.narrow, hclass]
      have hcast : (Instr.checkcast className).exec ⟨w :: stack, slots, W.heap, W.printed⟩ =
          if w = .null ∨ classAt? W.heap w = some className
          then .ok ⟨w :: stack, slots, W.heap, W.printed⟩ else Machine.illegal := rfl
      split
      · next hnarrow => exact .exec hi rfl (hcast.trans (if_pos hnarrow)) (.pure hnext hkept)
      · next hnarrow => exact .exec_trap hi rfl rfl (hcast.trans (if_neg hnarrow))

/-- References are compared by identity. -/
theorem Follows.identical {a b : Word} {l l' : Label} {k : Bool → Evaluation α}
    (hcode : Linked code place (Fragment.codeAll (conditionParts .ifAcmpne l l')))
    (hk : ∀ same, Follows callee code
      (place + (Fragment.codeAll (conditionParts .ifAcmpne l l')).length)
      ⟨.boolean same :: stack, slots, W, arrays⟩ next kept (k same W)) :
    Follows callee code place ⟨b :: a :: stack, slots, W, arrays⟩ next kept
      ((Evaluation.identical a b >>= k) W) := by
  rw [Evaluation.identical]
  split
  · next hobjects =>
      refine .condition hcode ?_ (hk (decide (a = b)))
      simp [Branch.test, hobjects]
  · next hobjects =>
      have hbranch : code[place]? = some (.instr (.branch .ifAcmpne l)) := by
        simp only [conditionParts, Fragment.codeAll_cons, Fragment.code_instr, List.cons_append,
          Linked.cons_instr_iff] at hcode
        exact hcode.1
      refine ⟨_, .refl, Caller.step_undecided hbranch ?_⟩
      simp [Branch.test, hobjects]

/-- A list that was made gets copies of the elements of another one. -/
theorem Follows.fill {target : Nat} {source : Word} {k : Unit → Evaluation α}
    (hi : code[place]? = some (.instr (.invoke .listCopy)))
    (hk : ∀ heap, copyList W.heap target source = some heap →
      Follows callee code (place + 1) ⟨stack, slots, { W with heap := heap }, arrays⟩ next kept
        (k () { W with heap := heap })) :
    Follows callee code place ⟨source :: .ref target :: stack, slots, W, arrays⟩ next kept
      ((Evaluation.fill target source >>= k) W) := by
  cases hcopy : copyList W.heap target source with
  | none =>
      rw [Attempt.bind_error (fill_of_none hcopy)]
      refine .trap hi rfl ?_
      simp only [Instr.perform, Method.perform, hcopy]
      rfl
  | some heap =>
      rw [Attempt.bind_ok (fill_of_some hcopy)]
      refine .perform hi rfl ?_ (hk heap hcopy)
      simp only [Instr.perform, Method.perform, hcopy]

/-- A list of arguments is made. No other list of arguments changes. -/
theorem Follows.array {k : Nat → Evaluation α}
    (hnew : code[place]? = some (.instr (.new arrayListClass)))
    (hdup : code[place + 1]? = some (.instr .dup))
    (hinit : code[place + 1 + 1]? = some (.instr (.invoke .arrayListInit)))
    (hk : Follows callee code (place + 1 + 1 + 1)
      ⟨.ref W.heap.length :: stack, slots, { W with heap := W.heap ++ [.plain arrayListClass] },
        fun a => if a = W.heap.length then [] else arrays a⟩ next kept
      (k W.heap.length { W with heap := W.heap ++ [.plain arrayListClass] })) :
    Follows callee code place ⟨stack, slots, W, arrays⟩ next kept
      ((Evaluation.allocate (.plain arrayListClass) >>= k) W) := by
  rw [Attempt.bind_ok (allocate_eq _ W)]
  have hperform : (Instr.invoke .arrayListInit).perform callee
      ⟨.ref W.heap.length :: .ref W.heap.length :: stack, slots,
        { W with heap := W.heap ++ [.raw arrayListClass] }, arrays⟩ =
      .ok ⟨.ref W.heap.length :: stack, slots,
        { W with heap := W.heap ++ [.plain arrayListClass] },
        fun a => if a = W.heap.length then [] else arrays a⟩ := by
    simp [Instr.perform, Method.perform]
    rfl
  exact .exec hnew rfl rfl (.exec hdup rfl rfl (.perform hinit rfl hperform hk))

/-- What is passed for an argument is added to the list of arguments. -/
theorem Follows.add {array : Nat} {w : Word} {r : Except Trap α × World}
    (hadd : code[place]? = some (.instr (.invoke .arrayListAdd)))
    (hpop : code[place + 1]? = some (.instr .pop))
    (harray : W.heap[array]? = some (.plain arrayListClass)) (hw : w.isPrimitive = false)
    (hr : Follows callee code (place + 1 + 1) ⟨stack, slots, W,
      fun a => if a = array then arrays array ++ [w] else arrays a⟩ next kept r) :
    Follows callee code place ⟨w :: .ref array :: stack, slots, W, arrays⟩ next kept r := by
  have hperform : (Instr.invoke .arrayListAdd).perform callee
      ⟨w :: .ref array :: stack, slots, W, arrays⟩ = .ok ⟨.int 1 :: stack, slots, W,
        fun a => if a = array then arrays array ++ [w] else arrays a⟩ := by
    simp only [Instr.perform, Method.perform, harray, hw, and_self, if_true]
    rfl
  exact .perform hadd rfl hperform (.exec hpop rfl rfl hr)

/-- A function pointer is called with a list of arguments. -/
theorem Follows.invoke {array : Nat} {target : Word} {ws : List Word} {k : Word → Evaluation α}
    (hi : code[place]? = some (.instr (.invoke .fptrInvoke)))
    (harray : W.heap[array]? = some (.plain arrayListClass)) (hws : arrays array = ws)
    (hk : ∀ w W', Follows callee code (place + 1) ⟨w :: stack, slots, W', arrays⟩ next kept
      (k w W')) :
    Follows callee code place ⟨.ref array :: target :: stack, slots, W, arrays⟩ next kept
      ((Evaluation.invoke callee target ws >>= k) W) := by
  subst hws
  cases hr : Evaluation.invoke callee target (arrays array) W with
  | mk result W' =>
      cases result with
      | error trap =>
          rw [Attempt.bind_error hr]
          refine .trap hi rfl ?_
          simp only [Instr.perform, Method.perform, harray, if_true, hr]
      | ok w =>
          rw [Attempt.bind_ok hr]
          refine .perform hi rfl ?_ (hk w W')
          simp only [Instr.perform, Method.perform, harray, if_true, hr]

end Operations

-- ============================================================================
-- Code of an activation
-- ============================================================================

/-- Code that an activation executes: types are those of the symbol table, and slots hold
    the receiver and the variables that have a slot in `table`. -/
structure CallHost where
  setting : Setting
  activation : Activation
  code : List Code
  table : SlotTable
  slots : Nat → Option Word
  symbols_eq : setting.symbols = activation.symbols
  oracle_eq : setting.oracle = activation.symbols.typeOf
  receiver_eq : slots receiverSlot = activation.receiver
  named_eq : ∀ name slot, table.get? name = some slot → slots slot = activation.vars name

/-- A state after one with `count` objects, whose arrays are as they were. -/
structure LaterState (count : Nat) (before : Nat → List Word) (W : World)
    (arrays : Nat → List Word) : Prop where
  count_le : count ≤ W.heap.length
  same : ∀ address, address < count → arrays address = before address

theorem LaterState.start {W : World} {arrays : Nat → List Word} :
    LaterState W.heap.length arrays W arrays :=
  ⟨Nat.le_refl _, fun _ _ => rfl⟩

/-- A list of arguments that was there before has one element more, and those that are
    added after it. -/
theorem LaterState.collected {count array : Nat} {W : World}
    {before arrays arrays' : Nat → List Word} {w : Word} {ws : List Word}
    (h : LaterState count before W arrays) (hlt : array < count)
    (hkept : (∀ address, address < array → arrays' address =
        if address = array then arrays array ++ [w] else arrays address) ∧
      arrays' array = (if array = array then arrays array ++ [w] else arrays array) ++ ws) :
    (∀ address, address < array → arrays' address = before address) ∧
      arrays' array = before array ++ w :: ws := by
  obtain ⟨hsame, hws⟩ := hkept
  constructor
  · intro address haddress
    rw [hsame address haddress, if_neg (Nat.ne_of_lt haddress),
      h.same address (Nat.lt_trans haddress hlt)]
  · rw [hws, if_pos rfl, h.same array hlt, List.append_assoc]
    rfl

namespace CallHost

/-- The lines of fragments stand in the code from the place on. -/
abbrev Installed (H : CallHost) (place : Nat) (parts : List Fragment) : Prop :=
  JasminGen.Installed H.code place parts

/-- The machine follows an evaluation. -/
abbrev Follows (H : CallHost) (place : Nat) (stack : List Word) (W : World)
    (arrays : Nat → List Word) {α : Type} (next : α → Nat × List Word)
    (kept : α → (Nat → List Word) → Prop) (r : Except Trap α × World) : Prop :=
  JasminGen.Follows H.activation.callee H.code place ⟨stack, H.slots, W, arrays⟩ next kept r

/-- The code of an expression puts its value on the stack. -/
structure Computes (H : CallHost) (e : Expr) (ty : Ty) (parts : List Fragment) : Prop where
  typed : HasType H.activation.symbols H.activation.id e ty
  follows : ∀ {place : Nat} {stack : List Word} {W : World} {arrays : Nat → List Word},
    H.Installed place parts →
    H.Follows place stack W arrays (fun w => (place + codeSize parts, ty.leave w stack))
      (fun _ arrays' => ∀ address, address < W.heap.length → arrays' address = arrays address)
      (e.value H.activation W)

/-- The code of arguments adds what is passed for them to the list on top of the stack. -/
structure Collects (H : CallHost) (args : List Expr) (parts : List Fragment) : Prop where
  follows : ∀ {place : Nat} {stack : List Word} {W : World} {arrays : Nat → List Word}
    {array : Nat}, H.Installed place parts → W.heap[array]? = some (.plain arrayListClass) →
    H.Follows place (.ref array :: stack) W arrays
      (fun _ => (place + codeSize parts, .ref array :: stack))
      (fun ws arrays' => (∀ address, address < array → arrays' address = arrays address) ∧
        arrays' array = arrays array ++ ws)
      (Expr.values H.activation args W)

section Computes

variable {H : CallHost} {e : Expr} {parts : List Fragment} {place : Nat} {stack : List Word}
  {W : World} {arrays before : Nat → List Word} {count : Nat} {β : Type}
  {next : β → Nat × List Word} {kept : β → (Nat → List Word) → Prop}

/-- The rest of the evaluation is followed from the end of the code of an operand. -/
theorem Computes.bind {ty : Ty} {k : Word → Evaluation β} (h : H.Computes e ty parts)
    (hne : ty ≠ .void) (hcode : H.Installed place parts) (hlater : LaterState count before W arrays)
    (hk : ∀ w W' arrays', e.value H.activation W = (.ok w, W') →
      LaterState count before W' arrays' →
      H.Follows (place + codeSize parts) (w :: stack) W' arrays' next kept (k w W')) :
    H.Follows place stack W arrays next kept ((e.value H.activation >>= k) W) := by
  refine (h.follows hcode).bind fun w W' arrays' hvalue hsame => ?_
  have hkeeps := (e.value_keepsHeap H.activation).of_eq hvalue
  change H.Follows (place + codeSize parts) (ty.leave w stack) W' arrays' next kept (k w W')
  rw [Ty.leave_of_ne hne]
  refine hk w W' arrays' hvalue
    ⟨Nat.le_trans hlater.count_le hkeeps.length_le, fun address hlt => ?_⟩
  rw [hsame address (Nat.lt_of_lt_of_le hlt hlater.count_le), hlater.same address hlt]

/-- An operand that is an integer is unboxed. -/
theorem Computes.int {k : Int32 → Evaluation β} (h : H.Computes e .int parts)
    (hcode : H.Installed place parts)
    (hunbox : H.code[place + codeSize parts]? = some (.instr (.invoke .integerIntValue)))
    (hlater : LaterState count before W arrays)
    (hk : ∀ n W' arrays', LaterState count before W' arrays' →
      H.Follows (place + codeSize parts + 1) (.int n :: stack) W' arrays' next kept (k n W')) :
    H.Follows place stack W arrays next kept
      ((do let n ← asInt (← e.value H.activation); k n) W) := by
  refine h.bind (by simp) hcode hlater fun w W' arrays' _ hlater' => ?_
  cases w with
  | integer n => exact .exec hunbox rfl rfl (hk n W' arrays' hlater')
  | _ => exact .exec_trap hunbox rfl rfl rfl

/-- An operand that is a boolean is unboxed. -/
theorem Computes.bool {k : Bool → Evaluation β} (h : H.Computes e .bool parts)
    (hcode : H.Installed place parts)
    (hunbox : H.code[place + codeSize parts]? = some (.instr (.invoke .booleanBooleanValue)))
    (hlater : LaterState count before W arrays)
    (hk : ∀ b W' arrays', LaterState count before W' arrays' →
      H.Follows (place + codeSize parts + 1) (.int (if b then 1 else 0) :: stack) W' arrays' next
        kept (k b W')) :
    H.Follows place stack W arrays next kept
      ((do let b ← asBool (← e.value H.activation); k b) W) := by
  refine h.bind (by simp) hcode hlater fun w W' arrays' _ hlater' => ?_
  cases w with
  | boolean b => exact .exec hunbox rfl rfl (hk b W' arrays' hlater')
  | _ => exact .exec_trap hunbox rfl rfl rfl

end Computes

-- ============================================================================
-- Constructs
-- ============================================================================

section Constructs

variable {H : CallHost} {e l r : Expr} {p pl pr : List Fragment}

theorem computes_int {n : Int32} :
    H.Computes (.int n) .int [.instr (.ldcInt n), .instr (.invoke .integerValueOf)] := by
  refine ⟨.int, fun hcode => ?_⟩
  simp only [installed_cons_instr] at hcode
  obtain ⟨hconst, hbox, -⟩ := hcode
  exact .exec hconst rfl rfl (.exec hbox rfl rfl (.pure rfl fun _ _ => rfl))

theorem computes_bool {b : Bool} : H.Computes (.bool b) .bool
    [.instr (if b then .iconst1 else .iconst0), .instr (.invoke .booleanValueOf)] := by
  refine ⟨.bool, fun hcode => ?_⟩
  simp only [installed_cons_instr] at hcode
  obtain ⟨hconst, hbox, -⟩ := hcode
  cases b with
  | false => exact .exec hconst rfl rfl (.exec hbox rfl rfl (.pure rfl fun _ _ => rfl))
  | true => exact .exec hconst rfl rfl (.exec hbox rfl rfl (.pure rfl fun _ _ => rfl))

/-- The name of a function gives a new function pointer. -/
theorem computes_function {name : String} {ty : Ty} {signature : Signature}
    (ht : HasType H.activation.symbols H.activation.id (.ident name) ty)
    (hf : H.activation.symbols.function? name = some signature) :
    H.Computes (.ident name) ty [.instr (.new fptrClass), .instr .dup,
      .instr (.aload receiverSlot), .instr (.ldcText name), .instr (.invoke .fptrInit)] := by
  refine ⟨ht, fun {place stack W arrays} hcode => ?_⟩
  rw [Expr.value_function hf]
  simp only [Ty.leave_of_ne ht.of_ident.2]
  simp only [installed_cons_instr] at hcode
  obtain ⟨hnew, hdup, hload, htext, hinit, -⟩ := hcode
  refine .exec hnew rfl rfl (.exec hdup rfl rfl ?_)
  rw [Attempt.bind_ok (allocate_eq _ W)]
  refine .read hload H.receiver_eq fun w => .exec htext rfl rfl ?_
  refine .exec hinit rfl ?_ (.pure rfl fun _ _ => rfl)
  simp [Instr.exec.eq_def, Method.exec.eq_def, Machine.construct, Machine.update]

theorem computes_variable {name : String} {ty : Ty} {slot : Nat}
    (ht : HasType H.activation.symbols H.activation.id (.ident name) ty)
    (hf : H.activation.symbols.function? name = none)
    (hslot : H.table.get? name = some slot) :
    H.Computes (.ident name) ty [.instr (.aload slot)] := by
  refine ⟨ht, fun hcode => ?_⟩
  rw [Expr.value_variable hf, ← bind_pure (read _)]
  simp only [installed_cons_instr] at hcode
  simp only [Ty.leave_of_ne ht.of_ident.2]
  exact .read hcode.1 (H.named_eq _ _ hslot) fun w => .pure rfl fun _ _ => rfl

theorem Computes.group {ty : Ty} (h : H.Computes e ty p) :
    H.Computes (.group e) ty [.expr e p] := by
  refine ⟨.group h.typed, fun hcode => ?_⟩
  rw [codeSize_cons_expr, codeSize_nil, Nat.add_zero]
  exact h.follows (installed_cons_expr.mp hcode).1

theorem Computes.arith {op : ArithOp} (hl : H.Computes l .int pl) (hr : H.Computes r .int pr) :
    H.Computes (.binary (.arith op) l r) .int
      [.expr l pl, .instr (.invoke .integerIntValue), .expr r pr,
        .instr (.invoke .integerIntValue), .instr op.instr,
        .instr (.invoke .integerValueOf)] := by
  refine ⟨.arith hl.typed hr.typed, fun hcode => ?_⟩
  simp only [installed_cons_expr, installed_cons_instr] at hcode
  obtain ⟨hcl, hunbox, hcr, hunbox', hop, hbox, -⟩ := hcode
  rw [Expr.value]
  refine hl.int hcl hunbox .start fun a W₁ arrays₁ hlater₁ => ?_
  refine hr.int hcr hunbox' hlater₁ fun b W₂ arrays₂ hlater₂ => ?_
  refine .compute op a b hop fun n => .exec hbox rfl rfl ?_
  exact .pure (Prod.ext (by simp; omega) rfl) hlater₂.same

theorem Computes.order {op : OrderOp} {no after : Label} (hl : H.Computes l .int pl)
    (hr : H.Computes r .int pr) :
    H.Computes (.binary (.order op) l r) .bool
      ([.expr l pl, .instr (.invoke .integerIntValue), .expr r pr,
        .instr (.invoke .integerIntValue)] ++ conditionParts op.negated no after) := by
  refine ⟨.order hl.typed hr.typed, fun hcode => ?_⟩
  simp only [List.cons_append, List.nil_append, installed_cons_expr,
    installed_cons_instr] at hcode
  obtain ⟨hcl, hunbox, hcr, hunbox', hcond⟩ := hcode
  rw [Expr.value]
  refine hl.int hcl hunbox .start fun a W₁ arrays₁ hlater₁ => ?_
  refine hr.int hcr hunbox' hlater₁ fun b W₂ arrays₂ hlater₂ => ?_
  refine .condition hcond (op.negated_test a b _) ?_
  exact .pure (Prod.ext (by simp [codeSize]; omega) rfl) hlater₂.same

theorem Computes.logic {op : LogicOp} {skip after : Label} (hl : H.Computes l .bool pl)
    (hr : H.Computes r .bool pr) :
    H.Computes (.binary (.logic op) l r) .bool
      [.expr l pl, .instr (.invoke .booleanBooleanValue), .instr (.branch op.skip skip),
        .expr r pr, .instr (.invoke .booleanBooleanValue), .instr (.goto after), .label skip,
        .instr op.decided, .label after, .instr (.invoke .booleanValueOf)] := by
  refine ⟨.logic hl.typed hr.typed, fun {_ stack _ _} hcode => ?_⟩
  simp only [installed_cons_expr, installed_cons_instr, installed_cons_label] at hcode
  obtain ⟨hcl, hunbox, hskip, hcr, hunbox', hgoto, hlskip, hskipPlace, hdecided, hlafter,
    hafterPlace, hbox, -⟩ := hcode
  rw [Expr.value]
  refine hl.bool hcl hunbox .start fun a W₁ arrays₁ hlater₁ => ?_
  have htest := op.skip_test a stack
  by_cases hdec : op.decides a = true
  · -- the left operand decides, and its value is made again
    rw [hdec] at htest
    rw [if_pos hdec]
    refine .taken hskip htest hskipPlace (.label hlskip ?_)
    refine .exec hdecided op.decided_jump? (LogicOp.decided_exec hdec _) (.label hlafter ?_)
    refine .exec hbox rfl rfl (.pure (Prod.ext (by simp; omega) ?_) hlater₁.same)
    cases a <;> rfl
  · rw [Bool.eq_false_iff.mpr hdec] at htest
    rw [if_neg hdec]
    refine .notTaken hskip htest ?_
    refine hr.bool hcr hunbox' hlater₁ fun b W₂ arrays₂ hlater₂ => ?_
    refine .goto hgoto hafterPlace (.label hlafter ?_)
    refine .exec hbox rfl rfl (.pure (Prod.ext (by simp; omega) ?_) hlater₂.same)
    cases b <;> rfl

/-- Integers and booleans are compared without their wrappers. -/
theorem Computes.equalValues {ty : Ty} {m : Method} {no after : Label}
    (hty : H.activation.symbols.typeOf H.activation.id l = .ok ty) (hm : ty.unboxer? = some m)
    (hl : H.Computes l ty pl) (hr : H.Computes r ty pr) :
    H.Computes (.binary .equal l r) .bool
      ([.expr l pl, .instr (.invoke m), .expr r pr, .instr (.invoke m)] ++
        conditionParts .ifIcmpne no after) := by
  have hne := Ty.ne_void_of_unboxer? hm
  refine ⟨.equal hl.typed hr.typed hne, fun {_ stack _ _} hcode => ?_⟩
  simp only [List.cons_append, List.nil_append, installed_cons_expr,
    installed_cons_instr] at hcode
  obtain ⟨hcl, hunbox, hcr, hunbox', hcond⟩ := hcode
  cases ty with
  | int =>
      cases hm
      rw [Expr.value_equal_int hty]
      refine hl.int hcl hunbox .start fun a W₁ arrays₁ hlater₁ => ?_
      refine hr.int hcr hunbox' hlater₁ fun b W₂ arrays₂ hlater₂ => ?_
      have htest : Branch.ifIcmpne.test (.int b :: .int a :: stack) =
          some (!decide (a = b), stack) := by
        simp [Branch.test]
      refine .condition hcond htest ?_
      exact .pure (Prod.ext (by simp [codeSize]; omega) rfl) hlater₂.same
  | bool =>
      cases hm
      rw [Expr.value_equal_bool hty]
      refine hl.bool hcl hunbox .start fun a W₁ arrays₁ hlater₁ => ?_
      refine hr.bool hcr hunbox' hlater₁ fun b W₂ arrays₂ hlater₂ => ?_
      have htest : Branch.ifIcmpne.test
          (.int (if b then 1 else 0) :: .int (if a then 1 else 0) :: stack) =
          some (!decide (a = b), stack) := by
        cases a <;> cases b <;> rfl
      refine .condition hcond htest ?_
      exact .pure (Prod.ext (by simp [codeSize]; omega) rfl) hlater₂.same
  | _ => cases hm

/-- Lists and function pointers are compared by identity. -/
theorem Computes.equalReferences {ty : Ty} {no after : Label}
    (hty : H.activation.symbols.typeOf H.activation.id l = .ok ty)
    (href : (∃ element, ty = .list element) ∨ ∃ params result, ty = .fptr params result)
    (hl : H.Computes l ty pl) (hr : H.Computes r ty pr) :
    H.Computes (.binary .equal l r) .bool
      ([.expr l pl, .expr r pr] ++ conditionParts .ifAcmpne no after) := by
  obtain ⟨hne, hint, hbool⟩ := Ty.ne_of_reference href
  refine ⟨.equal hl.typed hr.typed hne, fun hcode => ?_⟩
  simp only [List.cons_append, List.nil_append, installed_cons_expr] at hcode
  obtain ⟨hcl, hcr, hcond⟩ := hcode
  rw [Expr.value_equal_object hty hint hbool]
  refine hl.bind hne hcl .start fun a W₁ arrays₁ _ hlater₁ => ?_
  refine hr.bind hne hcr hlater₁ fun b W₂ arrays₂ _ hlater₂ => ?_
  refine .identical hcond fun same => ?_
  exact .pure (Prod.ext (by simp [codeSize]; omega) rfl) hlater₂.same

theorem Computes.not (h : H.Computes e .bool p) :
    H.Computes (.unary .not e) .bool
      [.expr e p, .instr (.invoke .booleanBooleanValue), .instr .iconst1, .instr .ixor,
        .instr (.invoke .booleanValueOf)] := by
  refine ⟨.not h.typed, fun hcode => ?_⟩
  simp only [installed_cons_expr, installed_cons_instr] at hcode
  obtain ⟨hce, hunbox, hone, hxor, hbox, -⟩ := hcode
  rw [Expr.value]
  refine h.bool hce hunbox .start fun b W₁ arrays₁ hlater₁ => ?_
  refine .exec hone rfl rfl (.exec hxor rfl rfl (.exec hbox rfl rfl ?_))
  refine .pure (Prod.ext (by simp; omega) ?_) hlater₁.same
  cases b <;> rfl

theorem Computes.neg (h : H.Computes e .int p) :
    H.Computes (.unary .neg e) .int
      [.expr e p, .instr (.invoke .integerIntValue), .instr .ineg,
        .instr (.invoke .integerValueOf)] := by
  refine ⟨.neg h.typed, fun hcode => ?_⟩
  simp only [installed_cons_expr, installed_cons_instr] at hcode
  obtain ⟨hce, hunbox, hneg, hbox, -⟩ := hcode
  rw [Expr.value]
  refine h.int hce hunbox .start fun n W₁ arrays₁ hlater₁ => ?_
  refine .exec hneg rfl rfl (.exec hbox rfl rfl ?_)
  rw [Int32.ofInt_neg, Int32.ofInt_toInt]
  exact .pure (Prod.ext (by simp; omega) rfl) hlater₁.same

theorem Computes.index {ty : Ty} {className : String}
    (hty : H.activation.symbols.typeOf H.activation.id (.index l r) = .ok ty)
    (hname : ty.className? = some className) (hl : H.Computes l (.list ty) pl)
    (hr : H.Computes r .int pr) :
    H.Computes (.index l r) ty
      [.expr l pl, .expr r pr, .instr (.invoke .integerIntValue),
        .instr (.invoke .listGetElement), .instr (.checkcast className)] := by
  refine ⟨.index hl.typed hr.typed, fun hcode => ?_⟩
  simp only [installed_cons_expr, installed_cons_instr] at hcode
  obtain ⟨hcl, hcr, hunbox, hget, hcast, -⟩ := hcode
  have hnarrow : narrowing ty = .checkcast className := by
    simp only [narrowing, hname]
  rw [← hnarrow] at hcast
  rw [Expr.value]
  refine hl.bind (by simp) hcl .start fun list W₁ arrays₁ _ hlater₁ => ?_
  refine hr.int hcr hunbox hlater₁ fun n W₂ arrays₂ hlater₂ => ?_
  refine .element hget fun w => .narrow hty hcast ?_ hlater₂.same
  exact Prod.ext (by simp; omega) rfl

/-- An append leaves the list on the stack. -/
theorem Computes.append {element : Ty} (hne : element ≠ .void)
    (hl : H.Computes l (.list element) pl) (hr : H.Computes r element pr) :
    H.Computes (.append l r) (.list element)
      [.expr l pl, .instr .dup, .expr r pr, .instr (.invoke .listAddElement)] := by
  refine ⟨.append hl.typed hr.typed hne, fun hcode => ?_⟩
  simp only [installed_cons_expr, installed_cons_instr] at hcode
  obtain ⟨hcl, hdup, hcr, hadd, -⟩ := hcode
  rw [Expr.value]
  refine hl.bind (by simp) hcl .start fun list W₁ arrays₁ _ hlater₁ => ?_
  refine .exec hdup rfl rfl ?_
  refine hr.bind hne hcr hlater₁ fun w W₂ arrays₂ hvalue hlater₂ => ?_
  refine .append hadd (hr.typed.value_boxed hne W₁ w W₂ hvalue) fun W₃ _ => ?_
  exact .pure (Prod.ext (by simp; omega) rfl) hlater₂.same

theorem Computes.listSize {element : Ty} (h : H.Computes e (.list element) p) :
    H.Computes (.size e) .int
      [.expr e p, .instr (.invoke .listGetSize), .instr (.invoke .integerValueOf)] := by
  refine ⟨.size h.typed, fun hcode => ?_⟩
  simp only [installed_cons_expr, installed_cons_instr] at hcode
  obtain ⟨hce, hsize, hbox, -⟩ := hcode
  rw [Expr.value]
  refine h.bind (by simp) hce .start fun list W₁ arrays₁ _ hlater₁ => ?_
  refine .size hsize fun elements => .exec hbox rfl rfl ?_
  exact .pure (Prod.ext (by simp; omega) rfl) hlater₁.same

/-- A function pointer is called with a new list of arguments. -/
theorem Computes.call {target : Expr} {args : List Expr} {params : List Ty} {result : Ty}
    {pt pa : List Fragment}
    (hty : H.activation.symbols.typeOf H.activation.id (.call target args) = .ok result)
    (htypes : ArgsHaveTypes H.activation.symbols H.activation.id args params)
    (htarget : H.Computes target (.fptr params result) pt) (hargs : H.Collects args pa) :
    H.Computes (.call target args) result
      ([.expr target pt, .instr (.new arrayListClass), .instr .dup,
        .instr (.invoke .arrayListInit)] ++ pa ++
        [.instr (.invoke .fptrInvoke), .instr (narrowing result)]) := by
  refine ⟨.call htarget.typed htypes, fun hcode => ?_⟩
  simp only [List.cons_append, List.nil_append, installed_cons_expr, installed_cons_instr,
    installed_append] at hcode
  obtain ⟨hct, hnew, hdup, hinit, hca, hinvoke, hnarrow, -⟩ := hcode
  rw [Expr.value]
  refine htarget.bind (by simp) hct .start fun t W₁ arrays₁ _ hlater₁ => ?_
  refine .array hnew hdup hinit ?_
  refine .bind (hargs.follows hca (List.getElem?_concat_length ..))
    fun ws W₂ arrays₂ hvalues hkept => ?_
  obtain ⟨hsame, hws⟩ := hkept
  rw [if_pos rfl, List.nil_append] at hws
  have hkeeps := (Expr.values_keepsHeap H.activation args).of_eq hvalues
  have harray := hkeeps.get (List.getElem?_concat_length ..) rfl
  refine .invoke hinvoke harray hws fun w W₃ => .narrow hty hnarrow ?_ ?_
  · exact Prod.ext (by simp; omega) rfl
  · intro address hlt
    have hlt₁ := Nat.lt_of_lt_of_le hlt hlater₁.count_le
    rw [hsame address hlt₁, if_neg (Nat.ne_of_lt hlt₁), hlater₁.same address hlt]

theorem collects_nil : H.Collects [] [] := by
  refine ⟨fun hcode harray => ?_⟩
  exact .pure (by simp) ⟨fun _ _ => rfl, (List.append_nil _).symm⟩

/-- A list is copied before it is passed. -/
theorem Collects.copied {arg : Expr} {rest : List Expr} {ty element : Ty} {pa : List Fragment}
    (hty : H.activation.symbols.typeOf H.activation.id arg = .ok (.list element))
    (hne : ty ≠ .void) (harg : H.Computes arg ty p) (hrest : H.Collects rest pa) :
    H.Collects (arg :: rest)
      ([.instr .dup, .instr (.new listClass), .instr .dup, .expr arg p,
        .instr (.invoke .listCopy), .instr (.invoke .arrayListAdd), .instr .pop] ++ pa) := by
  refine ⟨fun {place stack W arrays array} hcode harray => ?_⟩
  simp only [List.cons_append, List.nil_append, installed_cons_expr,
    installed_cons_instr] at hcode
  obtain ⟨hdup, hnew, hdup', hcarg, hcopy, hadd, hpop, hcrest⟩ := hcode
  have hlt : array < W.heap.length := (List.getElem?_eq_some_iff.mp harray).1
  rw [Expr.values_copied rest hty, Attempt.bind_ok (allocate_eq _ W)]
  refine .exec hdup rfl rfl (.exec hnew rfl rfl (.exec hdup' rfl rfl ?_))
  refine harg.bind hne hcarg .start fun w W₁ arrays₁ hvalue hlater₁ => ?_
  refine .fill hcopy fun heap hheap => ?_
  have hkeeps := (arg.value_keepsHeap H.activation).of_eq hvalue
  have harray' : heap[array]? = some (.plain arrayListClass) :=
    (hkeeps.of_copyList hheap).get harray rfl
  refine .add hadd hpop harray' rfl ?_
  refine .bind (hrest.follows hcrest harray') fun ws W₂ arrays₂ _ hkept => ?_
  refine .pure (Prod.ext (by simp; omega) rfl) ?_
  exact hlater₁.collected (by simp; omega) hkept

/-- Anything else is passed as it is. -/
theorem Collects.passed {arg : Expr} {rest : List Expr} {ty : Ty} {pa : List Fragment}
    (hother : ∀ element,
      H.activation.symbols.typeOf H.activation.id arg ≠ .ok (.list element))
    (hne : ty ≠ .void) (harg : H.Computes arg ty p) (hrest : H.Collects rest pa) :
    H.Collects (arg :: rest)
      ([.instr .dup, .expr arg p, .instr (.invoke .arrayListAdd), .instr .pop] ++ pa) := by
  refine ⟨fun {place stack W arrays array} hcode harray => ?_⟩
  simp only [List.cons_append, List.nil_append, installed_cons_expr,
    installed_cons_instr] at hcode
  obtain ⟨hdup, hcarg, hadd, hpop, hcrest⟩ := hcode
  have hlt : array < W.heap.length := (List.getElem?_eq_some_iff.mp harray).1
  rw [Expr.values_passed rest hother]
  refine .exec hdup rfl rfl ?_
  refine harg.bind hne hcarg .start fun w W₁ arrays₁ hvalue hlater₁ => ?_
  have harray' := ((arg.value_keepsHeap H.activation).of_eq hvalue).get harray rfl
  refine .add hadd hpop harray' (harg.typed.value_boxed hne _ _ _ hvalue) ?_
  refine .bind (hrest.follows hcrest harray') fun ws W₂ arrays₂ _ hkept => ?_
  refine .pure (Prod.ext (by simp; omega) rfl) ?_
  exact hlater₁.collected hlt hkept

end Constructs

-- ============================================================================
-- Expressions
-- ============================================================================

mutual

/-- The code of a well-typed expression computes its value. -/
theorem computes_of_lowered {H : CallHost} : ∀ {e : Expr} {ty : Ty} {f f' : Frame}
    {parts : List Fragment}, ExprLowered H.setting (.one e) f parts f' →
    f.activeScope = H.activation.id → f'.slots.Extends H.table →
    HasType H.activation.symbols H.activation.id e ty → H.Computes e ty parts
  | .int n, ty, f, f', parts, h, hid, hext, ht => by
      obtain rfl := ht.int_eq
      cases h with
      | int => exact computes_int
  | .bool b, ty, f, f', parts, h, hid, hext, ht => by
      obtain rfl := ht.bool_eq
      cases h with
      | bool => exact computes_bool
  | .ident name, ty, f, f', parts, h, hid, hext, ht => by
      have hlookup := SymbolTable.lookupFunction_eq ht.of_ident.1
      cases h with
      | function hf _ _ =>
          rw [H.symbols_eq, hid, hlookup] at hf
          exact computes_function ht (Except.ok.inj hf)
      | «variable» hf hslot =>
          rw [H.symbols_eq, hid, hlookup] at hf
          exact computes_variable ht (Except.ok.inj hf) (hext.kept _ _ hslot.get?)
  | .group e, ty, f, f', parts, h, hid, hext, ht => by
      cases h with
      | group he => exact (computes_of_lowered he hid hext ht.of_group).group
  | .binary (.arith op) l r, ty, f, f', parts, h, hid, hext, ht => by
      obtain ⟨rfl, htl, htr⟩ := ht.of_arith
      cases h with
      | arith hl hr =>
          have hleft := computes_of_lowered hl hid (hr.extends.trans hext) htl
          have hright := computes_of_lowered hr (hl.activeScope.trans hid) hext htr
          exact hleft.arith hright
  | .binary (.order op) l r, ty, f, f', parts, h, hid, hext, ht => by
      obtain ⟨rfl, htl, htr⟩ := ht.of_order
      cases h with
      | order hl hr =>
          have hleft := computes_of_lowered hl hid (hr.extends.trans hext) htl
          have hright := computes_of_lowered hr (hl.activeScope.trans hid) hext htr
          exact hleft.order hright
  | .binary (.logic op) l r, ty, f, f', parts, h, hid, hext, ht => by
      obtain ⟨rfl, htl, htr⟩ := ht.of_logic
      cases h with
      | logic hl hr =>
          have hleft := computes_of_lowered hl hid (hr.extends.trans hext) htl
          have hright := computes_of_lowered hr (hl.activeScope.trans hid) hext htr
          exact hleft.logic hright
  | .binary .equal l r, ty, f, f', parts, h, hid, hext, ht => by
      obtain ⟨rfl, operand, htl, htr⟩ := ht.of_equal
      cases h with
      | @equalValues _ _ _ _ _ _ _ found m hfound hm hl hr =>
          rw [H.oracle_eq, hid] at hfound
          have hne := Ty.ne_void_of_unboxer? hm
          obtain rfl := htl.eq_of_typeOf hfound hne
          have hleft := computes_of_lowered hl hid (hr.extends.trans hext) htl
          have hright := computes_of_lowered hr (hl.activeScope.trans hid) hext htr
          exact hleft.equalValues hfound hm hright
      | @equalReferences _ _ _ _ _ _ _ found hfound href hl hr =>
          rw [H.oracle_eq, hid] at hfound
          have hne := (Ty.ne_of_reference href).1
          obtain rfl := htl.eq_of_typeOf hfound hne
          have hleft := computes_of_lowered hl hid (hr.extends.trans hext) htl
          have hright := computes_of_lowered hr (hl.activeScope.trans hid) hext htr
          exact hleft.equalReferences hfound href hright
  | .unary .not e, ty, f, f', parts, h, hid, hext, ht => by
      obtain ⟨rfl, hte⟩ := ht.of_not
      cases h with
      | not he => exact (computes_of_lowered he hid hext hte).not
  | .unary .neg e, ty, f, f', parts, h, hid, hext, ht => by
      obtain ⟨rfl, hte⟩ := ht.of_neg
      cases h with
      | neg he => exact (computes_of_lowered he hid hext hte).neg
  | .index l r, ty, f, f', parts, h, hid, hext, ht => by
      obtain ⟨htl, htr⟩ := ht.of_index
      cases h with
      | @index _ _ _ _ _ _ _ found className hfound hname hl hr =>
          rw [H.oracle_eq, hid] at hfound
          have hne := Ty.ne_void_of_className? hname
          obtain rfl := ht.eq_of_typeOf hfound hne
          have hleft := computes_of_lowered hl hid (hr.extends.trans hext) htl
          have hright := computes_of_lowered hr (hl.activeScope.trans hid) hext htr
          exact hleft.index hfound hname hright
  | .append l r, ty, f, f', parts, h, hid, hext, ht => by
      obtain ⟨element, rfl, hne, htl, htr⟩ := ht.of_append
      cases h with
      | append hl hr =>
          have hleft := computes_of_lowered hl hid (hr.extends.trans hext) htl
          have hright := computes_of_lowered hr (hl.activeScope.trans hid) hext htr
          exact hleft.append hne hright
  | .size l, ty, f, f', parts, h, hid, hext, ht => by
      obtain ⟨rfl, element, htl⟩ := ht.of_size
      cases h with
      | size hl => exact (computes_of_lowered hl hid hext htl).listSize
  | .call target args, ty, f, f', parts, h, hid, hext, ht => by
      obtain ⟨params, htt, hta⟩ := ht.of_call
      cases h with
      | @call _ _ _ _ _ _ _ found result hfound hlt hla =>
          rw [H.oracle_eq, hid] at hfound
          have hresult : H.activation.symbols.typeOf H.activation.id (.call target args) =
              .ok result := SymbolTable.typeOf_call.mpr ⟨found, hfound⟩
          obtain rfl := ht.typeOf_eq hresult rfl
          have htarget := computes_of_lowered hlt hid (hla.extends.trans hext) htt
          have hargs := collects_of_lowered hla (hlt.activeScope.trans hid) hext hta
          exact htarget.call hresult hta hargs
  | .field _ _, ty, f, f', parts, h, hid, hext, ht => by
      cases h

/-- The code of well-typed arguments collects what is passed for them. -/
theorem collects_of_lowered {H : CallHost} : ∀ {es : List Expr} {params : List Ty} {f f' : Frame}
    {parts : List Fragment}, ExprLowered H.setting (.args es) f parts f' →
    f.activeScope = H.activation.id → f'.slots.Extends H.table →
    ArgsHaveTypes H.activation.symbols H.activation.id es params → H.Collects es parts
  | [], params, f, f', parts, h, hid, hext, ht => by
      cases h with
      | argsNil => exact collects_nil
  | arg :: rest, params, f, f', parts, h, hid, hext, ht => by
      obtain ⟨ty, others, -, htarg, hne, htrest⟩ := ht.of_cons
      cases h with
      | argsCopied hfound harg hrest =>
          rw [H.oracle_eq, hid] at hfound
          have hcomputes := computes_of_lowered harg hid (hrest.extends.trans hext) htarg
          have hcollects := collects_of_lowered hrest (harg.activeScope.trans hid) hext htrest
          exact hcollects.copied hfound hne hcomputes
      | argsPassed hfound hnot harg hrest =>
          rw [H.oracle_eq, hid] at hfound
          have hcomputes := computes_of_lowered harg hid (hrest.extends.trans hext) htarg
          have hcollects := collects_of_lowered hrest (harg.activeScope.trans hid) hext htrest
          exact hcollects.passed (by simpa [hfound] using hnot) hne hcomputes

end

end CallHost

end JasminGen
