/-
  JasminGen.Proofs.Calls.Evaluation

  The value of expressions with calls, for any meaning of calling a function. Operands,
  targets and arguments are evaluated from left to right, and each of them once. A
  function gets the values of its arguments, and a deep copy of each list.

  Objects are made in the order in which code makes them: the list of the arguments of a
  call is there before the arguments are evaluated, and the copy of an argument before
  the argument.

  Main definitions: `Callee`, `Activation`, `Expr.value`, `Expr.values`. Main results:
  `Expr.value_keepsHeap`, `HasType.value_boxed`.
-/

import JasminGen.Attempt
import JasminGen.Proofs.Calls.Copy
import JasminGen.Proofs.Typing

namespace JasminGen

-- ============================================================================
-- Worlds
-- ============================================================================

/-- What functions and their callers share. -/
structure Globals where
  heap : List Cell
  printed : List Printed

/-- A call of a function pointer with arguments, and the state in which it is made. -/
structure Invocation where
  target : Word
  arguments : List Word
  globals : Globals

/-- The state of an evaluation, with the calls that it has made itself. -/
structure World extends Globals where
  calls : List Invocation

def Cell.isList : Cell → Bool
  | .list _ => true
  | _ => false

/-- Objects stay, and only lists change: they may get other elements. -/
def Keeps (heap heap' : List Cell) : Prop :=
  ∀ (address : Nat) (cell : Cell), heap[address]? = some cell →
    ∃ cell' : Cell, heap'[address]? = some cell' ∧
      (cell' = cell ∨ cell.isList = true ∧ cell'.isList = true)

/-- What calling a function pointer does: it may run into a trap, and in any case it may
    make objects, change lists and print. -/
structure Callee where
  invoke : Word → List Word → Globals → Except Trap Word × Globals
  keeps : ∀ target ws g, Keeps g.heap (invoke target ws g).2.heap

/-- A function that is executed, up to its state. -/
structure Activation where
  symbols : SymbolTable
  id : ScopeId
  vars : String → Option Word
  receiver : Option Word
  callee : Callee

namespace Keeps

variable {heap heap₁ heap' : List Cell} {address : Nat}

theorem refl (heap : List Cell) : Keeps heap heap :=
  fun _ cell h => ⟨cell, h, .inl rfl⟩

theorem trans (h : Keeps heap heap₁) (h' : Keeps heap₁ heap') : Keeps heap heap' := by
  intro address cell hcell
  obtain ⟨cell₁, hcell₁, hsame⟩ := h address cell hcell
  obtain ⟨cell', hcell', hsame'⟩ := h' address cell₁ hcell₁
  refine ⟨cell', hcell', ?_⟩
  rcases hsame with rfl | ⟨hlist, hlist₁⟩
  · exact hsame'
  · rcases hsame' with rfl | ⟨-, hlist'⟩
    · exact .inr ⟨hlist, hlist₁⟩
    · exact .inr ⟨hlist, hlist'⟩

theorem length_le (h : Keeps heap heap') : heap.length ≤ heap'.length := by
  rcases Nat.eq_zero_or_pos heap.length with hzero | hpos
  · omega
  · have hlast : heap.length - 1 < heap.length := by omega
    obtain ⟨cell', hcell', -⟩ := h _ _ (List.getElem?_eq_getElem hlast)
    have := (List.getElem?_eq_some_iff.mp hcell').1
    omega

/-- An object that is no list stays as it is. -/
theorem get {cell : Cell} (h : Keeps heap heap') (hcell : heap[address]? = some cell)
    (hnot : cell.isList = false) : heap'[address]? = some cell := by
  obtain ⟨cell', hcell', rfl | ⟨hlist, -⟩⟩ := h address cell hcell
  · exact hcell'
  · simp [hnot] at hlist

theorem push (heap cells : List Cell) : Keeps heap (heap ++ cells) := by
  intro address cell hcell
  refine ⟨cell, ?_, .inl rfl⟩
  rw [List.getElem?_append_left (List.getElem?_eq_some_iff.mp hcell).1, hcell]

theorem set {elements : List Word} (hcell : heap[address]? = some (.list elements))
    (others : List Word) : Keeps heap (heap.set address (.list others)) := by
  intro other cell hother
  by_cases heq : address = other
  · subst heq
    rw [hcell] at hother
    cases hother
    refine ⟨_, List.getElem?_set_self (List.getElem?_eq_some_iff.mp hcell).1, .inr ⟨rfl, rfl⟩⟩
  · exact ⟨cell, by rw [List.getElem?_set_ne heq, hother], .inl rfl⟩

/-- A new object may become anything. -/
theorem of_pushed {cells : List Cell} (h : Keeps (heap ++ cells) heap₁)
    (h' : ∀ (address : Nat) (cell : Cell), address < heap.length → heap₁[address]? = some cell →
      heap'[address]? = some cell) : Keeps heap heap' := by
  intro address cell hcell
  obtain ⟨cell₁, hcell₁, hsame⟩ := (push heap cells).trans h address cell hcell
  exact ⟨cell₁, h' address cell₁ (List.getElem?_eq_some_iff.mp hcell).1 hcell₁, hsame⟩

/-- A list that was made is filled with copies. -/
theorem of_copyList {cell : Cell} {source : Word} (h : Keeps (heap ++ [cell]) heap₁)
    (hcopy : copyList heap₁ heap.length source = some heap') : Keeps heap heap' :=
  of_pushed h fun _ _ hlt hcell => getElem?_of_copyList hcopy (Nat.ne_of_lt hlt) hcell

end Keeps

-- ============================================================================
-- Operations
-- ============================================================================

/-- A step of an evaluation: it goes from a world to another one, also if it stops with a
    trap. -/
abbrev Evaluation (α : Type) := Attempt Trap World α

/-- The class of the object that a word refers to. -/
def classAt? (heap : List Cell) (w : Word) : Option String :=
  Machine.className? ⟨[], fun _ => none, heap, []⟩ w

namespace Evaluation

/-- Make an object. -/
def allocate (cell : Cell) : Evaluation Nat := fun W =>
  (.ok W.heap.length, { W with heap := W.heap ++ [cell] })

/-- Turn an object that was made into another one. -/
def construct (address : Nat) (cell : Cell) : Evaluation Unit := fun W =>
  (.ok (), { W with heap := W.heap.set address cell })

/-- Read a variable. -/
def read : Option Word → Evaluation Word
  | some w => if w.isPrimitive then throw .illegal else pure w
  | none => throw .unassigned

def asInt : Word → Evaluation Int32
  | .integer n => pure n
  | _ => throw .illegal

def asBool : Word → Evaluation Bool
  | .boolean b => pure b
  | _ => throw .illegal

def asList (w : Word) : Evaluation (List Word) := fun W =>
  match listAt? W.heap w with
  | some elements => (.ok elements, W)
  | none => (.error .illegal, W)

/-- Whether two references lead to the same object. -/
def identical (a b : Word) : Evaluation Bool :=
  if a.isObject && b.isObject then pure (a = b) else throw .illegal

/-- The element at a position of a list. -/
def element (elements : List Word) (position : Int32) : Evaluation Word :=
  if position < 0 then throw .indexOutOfRange
  else
    match elements[position.toInt.toNat]? with
    | some w => pure w
    | none => throw .indexOutOfRange

/-- Put an element at the end of a list. -/
def append (list element : Word) : Evaluation Unit := fun W =>
  match list, listAt? W.heap list with
  | .ref address, some elements =>
    (.ok (), { W with heap := W.heap.set address (.list (elements ++ [element])) })
  | _, _ => (.error .illegal, W)

/-- Copy a list to an object that was made. -/
def fill (target : Nat) (source : Word) : Evaluation Unit := fun W =>
  match copyList W.heap target source with
  | some heap => (.ok (), { W with heap := heap })
  | none => (.error .illegal, W)

/-- A value is an object of the class that stands for a type, or no object. There is no
    class for `void`. -/
def narrow (ty : Ty) (w : Word) : Evaluation Word := fun W =>
  match ty.className? with
  | some className =>
    if w = .null ∨ classAt? W.heap w = some className then (.ok w, W) else (.error .illegal, W)
  | none => (.ok w, W)

/-- Call a function pointer. -/
def invoke (callee : Callee) (target : Word) (ws : List Word) : Evaluation Word := fun W =>
  ((callee.invoke target ws W.toGlobals).1,
    ⟨(callee.invoke target ws W.toGlobals).2, W.calls ++ [⟨target, ws, W.toGlobals⟩]⟩)

end Evaluation

/-- Arithmetic on integers, whose results wrap around to 32 bits. Division truncates
    toward zero. -/
def ArithOp.compute (op : ArithOp) (a b : Int32) : Evaluation Int32 :=
  match op with
  | .add => pure (Int32.ofInt (a.toInt + b.toInt))
  | .sub => pure (Int32.ofInt (a.toInt - b.toInt))
  | .mul => pure (Int32.ofInt (a.toInt * b.toInt))
  | .div => if b = 0 then throw .divisionByZero else pure (Int32.ofInt (a.toInt.tdiv b.toInt))

/-- Give a value the type that the symbol table says of its expression. -/
def Activation.narrow (A : Activation) (e : Expr) (w : Word) : Evaluation Word :=
  match A.symbols.typeOf A.id e with
  | .ok ty => Evaluation.narrow ty w
  | .error _ => throw .illegal

-- ============================================================================
-- Values
-- ============================================================================

open Evaluation

mutual

/-- The value of an expression. A call without result has the value that its function
    gives, which nobody sees. -/
def Expr.value (A : Activation) : Expr → Evaluation Word
  | .int n => pure (.integer n)
  | .bool b => pure (.boolean b)
  | .ident name =>
    match A.symbols.function? name with
    | some _ => do
      let address ← allocate (.raw fptrClass)
      construct address (.fptr (← read A.receiver) name)
      pure (.ref address)
    | none => read (A.vars name)
  | .group e => e.value A
  | .binary (.arith op) l r => do
    let a ← asInt (← l.value A)
    let b ← asInt (← r.value A)
    pure (.integer (← op.compute a b))
  | .binary (.order op) l r => do
    let a ← asInt (← l.value A)
    let b ← asInt (← r.value A)
    pure (.boolean (op.holds a b))
  | .binary (.logic op) l r => do
    let a ← asBool (← l.value A)
    if op.decides a then pure (.boolean a) else
      pure (.boolean (← asBool (← r.value A)))
  | .binary .equal l r =>
    match A.symbols.typeOf A.id l with
    | .ok .int => do
      let a ← asInt (← l.value A)
      let b ← asInt (← r.value A)
      pure (.boolean (a = b))
    | .ok .bool => do
      let a ← asBool (← l.value A)
      let b ← asBool (← r.value A)
      pure (.boolean (a = b))
    | _ => do
      let a ← l.value A
      let b ← r.value A
      pure (.boolean (← identical a b))
  | .unary .not e => do pure (.boolean (!(← asBool (← e.value A))))
  | .unary .neg e => do pure (.integer (Int32.ofInt (-(← asInt (← e.value A)).toInt)))
  | .index l r => do
    let list ← l.value A
    let position ← asInt (← r.value A)
    A.narrow (.index l r) (← element (← asList list) position)
  | .append l r => do
    let list ← l.value A
    let w ← r.value A
    Evaluation.append list w
    pure list
  | .size l => do
    let elements ← asList (← l.value A)
    pure (.integer (Int32.ofNat elements.length))
  | .call target args => do
    let t ← target.value A
    let _ ← allocate (.plain arrayListClass)
    let ws ← Expr.values A args
    A.narrow (.call target args) (← invoke A.callee t ws)
  | .field _ _ => throw .illegal

/-- What is passed for the arguments of a call: their values, and copies of lists. -/
def Expr.values (A : Activation) : List Expr → Evaluation (List Word)
  | [] => pure []
  | arg :: rest =>
    match A.symbols.typeOf A.id arg with
    | .ok (.list _) => do
      let copy ← allocate (.raw listClass)
      fill copy (← arg.value A)
      pure (.ref copy :: (← Expr.values A rest))
    | _ => do
      let w ← arg.value A
      pure (w :: (← Expr.values A rest))

end

section Compute

variable (a b : Int32)

theorem ArithOp.compute_add : ArithOp.add.compute a b = pure (a + b) := by
  rw [compute, Int32.ofInt_add, Int32.ofInt_toInt, Int32.ofInt_toInt]

theorem ArithOp.compute_sub : ArithOp.sub.compute a b = pure (a - b) := by
  rw [compute, Int32.ofInt_sub, Int32.ofInt_toInt, Int32.ofInt_toInt]

theorem ArithOp.compute_mul : ArithOp.mul.compute a b = pure (a * b) := by
  rw [compute, Int32.ofInt_mul, Int32.ofInt_toInt, Int32.ofInt_toInt]

theorem ArithOp.compute_div : ArithOp.div.compute a b =
    if b = 0 then throw .divisionByZero else pure (a / b) := by
  have hquotient : Int32.ofInt (a.toInt.tdiv b.toInt) = a / b := by
    rw [← Int32.toInt_inj, Int32.toInt_ofInt, Int32.toInt_div]
  rw [compute, hquotient]

end Compute

theorem Evaluation.allocate_eq (cell : Cell) (W : World) :
    allocate cell W = (.ok W.heap.length, { W with heap := W.heap ++ [cell] }) := rfl

theorem Evaluation.asList_of_some {list : Word} {elements : List Word} {W : World}
    (h : listAt? W.heap list = some elements) : asList list W = (.ok elements, W) := by
  simp only [asList, h]

theorem Evaluation.asList_of_none {list : Word} {W : World} (h : listAt? W.heap list = none) :
    asList list W = (.error .illegal, W) := by
  simp only [asList, h]

theorem Evaluation.fill_of_some {target : Nat} {source : Word} {W : World} {heap : List Cell}
    (h : copyList W.heap target source = some heap) :
    fill target source W = (.ok (), { W with heap := heap }) := by
  simp only [fill, h]

theorem Evaluation.fill_of_none {target : Nat} {source : Word} {W : World}
    (h : copyList W.heap target source = none) :
    fill target source W = (.error .illegal, W) := by
  simp only [fill, h]

namespace Expr

variable {A : Activation} {name : String} {l r arg : Expr} {ty : Ty}

/-- The name of a function stands for a new function pointer. -/
theorem value_function {signature : Signature} (h : A.symbols.function? name = some signature) :
    (ident name).value A = (do
      let address ← allocate (.raw fptrClass)
      construct address (.fptr (← read A.receiver) name)
      pure (.ref address)) := by
  rw [value, h]

theorem value_variable (h : A.symbols.function? name = none) :
    (ident name).value A = read (A.vars name) := by
  rw [value, h]

theorem value_equal_int (h : A.symbols.typeOf A.id l = .ok .int) :
    (binary .equal l r).value A = (do
      let a ← asInt (← l.value A)
      let b ← asInt (← r.value A)
      pure (.boolean (a = b))) := by
  rw [value, h]

theorem value_equal_bool (h : A.symbols.typeOf A.id l = .ok .bool) :
    (binary .equal l r).value A = (do
      let a ← asBool (← l.value A)
      let b ← asBool (← r.value A)
      pure (.boolean (a = b))) := by
  rw [value, h]

/-- Values of all other types are compared by identity. -/
theorem value_equal_object (h : A.symbols.typeOf A.id l = .ok ty) (hint : ty ≠ .int)
    (hbool : ty ≠ .bool) : (binary .equal l r).value A = (do
      let a ← l.value A
      let b ← r.value A
      pure (.boolean (← identical a b))) := by
  rw [value, h]
  split
  · next hty => exact absurd (Except.ok.inj hty) hint
  · next hty => exact absurd (Except.ok.inj hty) hbool
  · rfl

/-- An argument that is a list for the symbol table is copied. -/
theorem values_copied {element : Ty} (rest : List Expr)
    (h : A.symbols.typeOf A.id arg = .ok (.list element)) :
    values A (arg :: rest) = (do
      let copy ← allocate (.raw listClass)
      fill copy (← arg.value A)
      pure (.ref copy :: (← values A rest))) := by
  rw [values, h]

/-- Any other argument is passed as it is. -/
theorem values_passed (rest : List Expr)
    (h : ∀ element, A.symbols.typeOf A.id arg ≠ .ok (.list element)) :
    values A (arg :: rest) = (do
      let w ← arg.value A
      pure (w :: (← values A rest))) := by
  rw [values]
  split
  · next element hlist => exact absurd hlist (h element)
  · rfl

end Expr

-- ============================================================================
-- Kept objects
-- ============================================================================

/-- A step that keeps all objects, whether it succeeds or not. -/
def Evaluation.KeepsHeap {α : Type} (x : Evaluation α) : Prop :=
  ∀ W, Keeps W.heap (x W).2.heap

namespace Evaluation.KeepsHeap

variable {α β : Type}

theorem of_eq {x : Evaluation α} {r : Except Trap α} {W W' : World} (hx : KeepsHeap x)
    (h : x W = (r, W')) : Keeps W.heap W'.heap := by
  have hkeeps := hx W
  rwa [h] at hkeeps

theorem pure (a : α) : KeepsHeap (Pure.pure a) := fun W => .refl W.heap

theorem throw (trap : Trap) : KeepsHeap (MonadExcept.throw trap : Evaluation α) :=
  fun W => .refl W.heap

theorem bind {x : Evaluation α} {k : α → Evaluation β} (hx : KeepsHeap x)
    (hk : ∀ a, KeepsHeap (k a)) : KeepsHeap (x >>= k) := by
  intro W
  rcases Attempt.bind_cases x k W with ⟨trap, W', hr, hbind⟩ | ⟨a, W', hr, hbind⟩
  · rw [hbind]
    exact hx.of_eq hr
  · rw [hbind]
    exact (hx.of_eq hr).trans (hk a W')

theorem allocate (cell : Cell) : KeepsHeap (Evaluation.allocate cell) :=
  fun W => .push W.heap [cell]

theorem read (place : Option Word) : KeepsHeap (Evaluation.read place) := by
  cases place with
  | none => exact throw _
  | some w =>
      rw [Evaluation.read]
      split
      · exact throw _
      · exact pure _

theorem asInt (w : Word) : KeepsHeap (Evaluation.asInt w) := by
  cases w <;> exact fun W => .refl W.heap

theorem asBool (w : Word) : KeepsHeap (Evaluation.asBool w) := by
  cases w <;> exact fun W => .refl W.heap

theorem asList (w : Word) : KeepsHeap (Evaluation.asList w) := by
  intro W
  rw [Evaluation.asList]
  split <;> exact .refl W.heap

theorem identical (a b : Word) : KeepsHeap (Evaluation.identical a b) := by
  rw [Evaluation.identical]
  split
  · exact pure _
  · exact throw _

theorem element (elements : List Word) (position : Int32) :
    KeepsHeap (Evaluation.element elements position) := by
  rw [Evaluation.element]
  split
  · exact throw _
  · split
    · exact pure _
    · exact throw _

theorem append (list w : Word) : KeepsHeap (Evaluation.append list w) := by
  intro W
  rw [Evaluation.append.eq_def]
  split
  · next address elements hlist =>
      obtain ⟨found, hfound, hcell⟩ := listAt?_eq_some.mp hlist
      cases hfound
      exact .set hcell _
  · exact .refl W.heap

theorem compute (op : ArithOp) (a b : Int32) : KeepsHeap (op.compute a b) := by
  cases op with
  | div =>
      rw [ArithOp.compute]
      split
      · exact throw _
      · exact pure _
  | _ => exact pure _

theorem narrow (A : Activation) (e : Expr) (w : Word) : KeepsHeap (A.narrow e w) := by
  rw [Activation.narrow]
  split
  · intro W
    rw [Evaluation.narrow]
    split
    · split <;> exact .refl W.heap
    · exact .refl W.heap
  · exact throw _

theorem invoke (callee : Callee) (target : Word) (ws : List Word) :
    KeepsHeap (Evaluation.invoke callee target ws) :=
  fun W => callee.keeps target ws W.toGlobals

/-- The object of a function pointer is made before its receiver is read. -/
theorem pointer (receiver : Option Word) (name : String) : KeepsHeap (do
    let address ← Evaluation.allocate (.raw fptrClass)
    construct address (.fptr (← Evaluation.read receiver) name)
    Pure.pure (Word.ref address)) := by
  intro W
  rw [Attempt.bind_ok (allocate_eq _ W)]
  cases hr : Evaluation.read receiver { W with heap := W.heap ++ [.raw fptrClass] } with
  | mk result W' =>
      have hpushed := (KeepsHeap.read receiver).of_eq hr
      cases result with
      | error trap =>
          rw [Attempt.bind_error hr]
          exact (Keeps.push _ _).trans hpushed
      | ok w =>
          rw [Attempt.bind_ok hr]
          refine Keeps.of_pushed hpushed fun address cell hlt hcell => ?_
          change (W'.heap.set W.heap.length _)[address]? = _
          rw [List.getElem?_set_ne (Nat.ne_of_gt hlt), hcell]

/-- The object of a copy is made before the list is evaluated. -/
theorem copied {x : Evaluation Word} {k : Nat → Evaluation β} (hx : KeepsHeap x)
    (hk : ∀ copy, KeepsHeap (k copy)) : KeepsHeap (do
      let copy ← Evaluation.allocate (.raw listClass)
      fill copy (← x)
      k copy) := by
  intro W
  rw [Attempt.bind_ok (allocate_eq _ W)]
  cases hr : x { W with heap := W.heap ++ [.raw listClass] } with
  | mk result W₁ =>
      have hpushed := hx.of_eq hr
      cases result with
      | error trap =>
          rw [Attempt.bind_error hr]
          exact (Keeps.push _ _).trans hpushed
      | ok w =>
          rw [Attempt.bind_ok hr]
          cases hcopy : copyList W₁.heap W.heap.length w with
          | none =>
              rw [Attempt.bind_error (fill_of_none hcopy)]
              exact (Keeps.push _ _).trans hpushed
          | some heap =>
              rw [Attempt.bind_ok (fill_of_some hcopy)]
              exact Keeps.trans (hpushed.of_copyList hcopy) (hk _ { W₁ with heap := heap })

end Evaluation.KeepsHeap

mutual

/-- Evaluating an expression keeps all objects. -/
theorem Expr.value_keepsHeap (A : Activation) : ∀ e : Expr, (e.value A).KeepsHeap
  | .int _ => .pure _
  | .bool _ => .pure _
  | .ident name => by
      rw [value]
      split
      · exact .pointer _ _
      · exact .read _
  | .group e => value_keepsHeap A e
  | .binary (.arith op) l r =>
      .bind (value_keepsHeap A l) fun v => .bind (.asInt v) fun a =>
        .bind (value_keepsHeap A r) fun w => .bind (.asInt w) fun b =>
          .bind (.compute op a b) fun _ => .pure _
  | .binary (.order _) l r =>
      .bind (value_keepsHeap A l) fun v => .bind (.asInt v) fun _ =>
        .bind (value_keepsHeap A r) fun w => .bind (.asInt w) fun _ => .pure _
  | .binary (.logic op) l r => by
      rw [value]
      refine .bind (value_keepsHeap A l) fun v => .bind (.asBool v) fun a => ?_
      split
      · exact .pure _
      · exact .bind (value_keepsHeap A r) fun w => .bind (.asBool w) fun _ => .pure _
  | .binary .equal l r => by
      rw [value]
      split
      · exact .bind (value_keepsHeap A l) fun v => .bind (.asInt v) fun _ =>
          .bind (value_keepsHeap A r) fun w => .bind (.asInt w) fun _ => .pure _
      · exact .bind (value_keepsHeap A l) fun v => .bind (.asBool v) fun _ =>
          .bind (value_keepsHeap A r) fun w => .bind (.asBool w) fun _ => .pure _
      · exact .bind (value_keepsHeap A l) fun v => .bind (value_keepsHeap A r) fun w =>
          .bind (.identical v w) fun _ => .pure _
  | .unary .not e => .bind (value_keepsHeap A e) fun v => .bind (.asBool v) fun _ => .pure _
  | .unary .neg e => .bind (value_keepsHeap A e) fun v => .bind (.asInt v) fun _ => .pure _
  | .index l r =>
      .bind (value_keepsHeap A l) fun list => .bind (value_keepsHeap A r) fun w =>
        .bind (.asInt w) fun n => .bind (.asList list) fun elements =>
          .bind (.element elements n) fun v => .narrow A _ v
  | .append l r =>
      .bind (value_keepsHeap A l) fun list => .bind (value_keepsHeap A r) fun v =>
        .bind (.append list v) fun _ => .pure _
  | .size l => .bind (value_keepsHeap A l) fun list => .bind (.asList list) fun _ => .pure _
  | .call target args =>
      .bind (value_keepsHeap A target) fun t => .bind (.allocate _) fun _ =>
        .bind (values_keepsHeap A args) fun ws => .bind (.invoke _ t ws) fun w => .narrow A _ w
  | .field _ _ => .throw _

theorem Expr.values_keepsHeap (A : Activation) : ∀ es : List Expr, (values A es).KeepsHeap
  | [] => .pure _
  | arg :: rest => by
      rw [values]
      split
      · exact .copied (value_keepsHeap A arg) fun _ =>
          .bind (values_keepsHeap A rest) fun _ => .pure _
      · exact .bind (value_keepsHeap A arg) fun _ =>
          .bind (values_keepsHeap A rest) fun _ => .pure _

end

-- ============================================================================
-- Values are references
-- ============================================================================

/-- What the step gives, and the world it comes to, are as they should be if it succeeds. -/
def Evaluation.Gives {α : Type} (p : α → World → Prop) (x : Evaluation α) : Prop :=
  ∀ W a W', x W = (.ok a, W') → p a W'

namespace Evaluation.Gives

variable {α β : Type} {p : β → World → Prop}

theorem pure {b : β} (h : ∀ W, p b W) : Gives p (Pure.pure b) := by
  intro W a W' heq
  cases heq
  exact h W

theorem throw (trap : Trap) : Gives p (MonadExcept.throw trap) := by
  intro W a W' heq
  cases heq

theorem imp {q : β → World → Prop} {x : Evaluation β} (hx : Gives q x)
    (h : ∀ b W, q b W → p b W) : Gives p x :=
  fun W b W' heq => h b W' (hx W b W' heq)

theorem bind_of {x : Evaluation α} {k : α → Evaluation β} {q : α → Prop}
    (hx : Gives (fun a _ => q a) x) (hk : ∀ a, q a → Gives p (k a)) : Gives p (x >>= k) := by
  intro W b W' heq
  obtain ⟨a, W₁, ha, hb⟩ := Attempt.bind_eq_ok heq
  exact hk a (hx W a W₁ ha) W₁ b W' hb

theorem bind {x : Evaluation α} {k : α → Evaluation β} (hk : ∀ a, Gives p (k a)) :
    Gives p (x >>= k) :=
  bind_of (q := fun _ => True) (fun _ _ _ _ => trivial) fun a _ => hk a

theorem read_boxed (place : Option Word) :
    Gives (fun w _ => w.isPrimitive = false) (Evaluation.read place) := by
  cases place with
  | none => exact throw _
  | some w =>
      rw [Evaluation.read]
      split
      · exact throw _
      · next hboxed => exact pure fun _ => Bool.eq_false_iff.mpr hboxed

/-- A value that has been narrowed is an object of the class, or no object. -/
theorem narrow {A : Activation} {e : Expr} {ty : Ty} {className : String} (w : Word)
    (hty : A.symbols.typeOf A.id e = .ok ty) (hclass : ty.className? = some className) :
    Gives (fun w W => w = .null ∨ classAt? W.heap w = some className) (A.narrow e w) := by
  intro W found W' heq
  simp only [Activation.narrow, hty, Evaluation.narrow, hclass] at heq
  split at heq
  · next hnarrow =>
      cases heq
      exact hnarrow
  · cases heq

end Evaluation.Gives

theorem Word.boxed_of_class {heap : List Cell} {className : String} {w : Word}
    (h : w = .null ∨ classAt? heap w = some className) : w.isPrimitive = false := by
  rcases h with rfl | hclass
  · rfl
  · cases w with
    | int n => cases hclass
    | _ => rfl

/-- A value that has been narrowed to a type is a reference. -/
theorem Evaluation.Gives.narrow_boxed {A : Activation} {e : Expr} (w : Word)
    (h : A.symbols.typeOf A.id e ≠ .ok .void) :
    Gives (fun w _ => w.isPrimitive = false) (A.narrow e w) := by
  cases hty : A.symbols.typeOf A.id e with
  | error failure =>
      rw [Activation.narrow, hty]
      exact .throw _
  | ok ty =>
      cases hclass : ty.className? with
      | some className =>
          exact fun W found W' heq => Word.boxed_of_class (Gives.narrow w hty hclass W found W' heq)
      | none =>
          cases ty with
          | void => exact absurd hty h
          | _ => cases hclass

/-- Whether an expression is a literal, an operation or a size. -/
def Expr.isScalar : Expr → Bool
  | .int _ | .bool _ | .binary _ _ _ | .unary _ _ | .size _ => true
  | _ => false

/-- Whether a word is a boxed integer or boolean. -/
def Word.isScalar : Word → Bool
  | .integer _ | .boolean _ => true
  | _ => false

theorem Word.boxed_of_isScalar {w : Word} (h : w.isScalar = true) : w.isPrimitive = false := by
  cases w with
  | int n => cases h
  | _ => rfl

/-- The value of an operation is a boxed integer or boolean. -/
theorem Expr.value_scalar {A : Activation} : ∀ {e : Expr}, e.isScalar = true →
    (e.value A).Gives fun w _ => w.isScalar = true
  | .int _, _ => .pure fun _ => rfl
  | .bool _, _ => .pure fun _ => rfl
  | .binary (.arith _) _ _, _ =>
      .bind fun _ => .bind fun _ => .bind fun _ => .bind fun _ => .bind fun _ => .pure fun _ => rfl
  | .binary (.order _) _ _, _ =>
      .bind fun _ => .bind fun _ => .bind fun _ => .bind fun _ => .pure fun _ => rfl
  | .binary (.logic _) _ _, _ => by
      rw [value]
      refine .bind fun _ => .bind fun _ => ?_
      split
      · exact .pure fun _ => rfl
      · exact .bind fun _ => .bind fun _ => .pure fun _ => rfl
  | .binary .equal _ _, _ => by
      rw [value]
      split
      · exact .bind fun _ => .bind fun _ => .bind fun _ => .bind fun _ => .pure fun _ => rfl
      · exact .bind fun _ => .bind fun _ => .bind fun _ => .bind fun _ => .pure fun _ => rfl
      · exact .bind fun _ => .bind fun _ => .bind fun _ => .pure fun _ => rfl
  | .unary .not _, _ => .bind fun _ => .bind fun _ => .pure fun _ => rfl
  | .unary .neg _, _ => .bind fun _ => .bind fun _ => .pure fun _ => rfl
  | .size _, _ => .bind fun _ => .bind fun _ => .pure fun _ => rfl

/-- The value of an expression with a value is a reference. -/
theorem HasType.value_boxed {A : Activation} : ∀ {e : Expr} {ty : Ty},
    HasType A.symbols A.id e ty → ty ≠ .void →
    (e.value A).Gives fun w _ => w.isPrimitive = false
  | .int _, _, _, _ | .bool _, _, _, _ | .binary _ _ _, _, _, _ | .unary _ _, _, _, _
  | .size _, _, _, _ => .imp (Expr.value_scalar rfl) fun _ _ => Word.boxed_of_isScalar
  | .ident name, _, _, _ => by
      rw [Expr.value]
      split
      · exact .bind fun _ => .bind fun _ => .bind fun _ => .pure fun _ => rfl
      · exact .read_boxed _
  | .group e, _, ht, hne => value_boxed (e := e) ht.of_group hne
  | .index _ _, _, ht, hne => by
      refine .bind fun _ => .bind fun _ => .bind fun _ => .bind fun _ => .bind fun w => ?_
      exact .narrow_boxed w fun hvoid => hne (ht.typeOf_eq hvoid rfl).symm
  | .append _ _, _, ht, _ => by
      obtain ⟨_, -, -, hl, -⟩ := ht.of_append
      exact .bind_of (value_boxed hl (by simp)) fun _ hlist => .bind fun _ => .bind fun _ =>
        .pure fun _ => hlist
  | .call _ _, _, ht, hne => by
      refine .bind fun _ => .bind fun _ => .bind fun _ => .bind fun w => ?_
      exact .narrow_boxed w fun hvoid => hne (ht.typeOf_eq hvoid rfl).symm
  | .field _ _, _, _, _ => .throw _

end JasminGen
