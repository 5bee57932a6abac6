/-
  JasminGen.Proofs.Interp

  The meaning of the source language without calls, as an interpreter. A program has one
  flat environment of variables. Lists and function pointers are objects of a store:
  variables and lists hold references to them, so that lists are shared, and compared by
  identity. Each time that the name of a function is evaluated, there is a new pointer.

  Main definitions: `Expr.eval`, `Stmt.exec`, `Program.interpret`.
-/

import JasminGen.Attempt
import JasminGen.Stmt

namespace JasminGen

-- ============================================================================
-- Values and environments
-- ============================================================================

inductive Value where
  | int (value : Int32)
  | bool (value : Bool)
  /-- A list or a function pointer in the store. -/
  | ref (address : Nat)
  deriving DecidableEq

inductive Object where
  | list (elements : List Value)
  | function (name : String)
  deriving DecidableEq

/-- What a program has printed with one statement. -/
inductive Printed where
  | int (value : Int32)
  | bool (value : Bool)
  deriving DecidableEq

/-- Why a run stops before its end. -/
inductive Trap where
  | divisionByZero
  | indexOutOfRange
  /-- A variable is read that has no value yet. -/
  | unassigned
  /-- A value is not what an operation works on. -/
  | illegal
  deriving DecidableEq

structure Env where
  vars : String → Option Value
  store : List Object
  printed : List Printed

/-- A program starts without variables and objects. -/
def Env.initial : Env := ⟨fun _ => none, [], []⟩

/-- A step of the interpreter: it goes from an environment to another one, also if it
    stops with a trap. -/
abbrev Run (α : Type) := Attempt Trap Env α

namespace Run

def lookup (name : String) : Run Value := do
  match (← get).vars name with
  | some v => pure v
  | none => throw .unassigned

def assign (name : String) (v : Value) : Run Unit :=
  modify fun env => { env with vars := fun x => if x = name then some v else env.vars x }

/-- Put a new object into the store. -/
def allocate (o : Object) : Run Value := do
  let env ← get
  set { env with store := env.store ++ [o] }
  pure (.ref env.store.length)

def print (p : Printed) : Run Unit :=
  modify fun env => { env with printed := env.printed ++ [p] }

def asInt : Value → Run Int32
  | .int n => pure n
  | _ => throw .illegal

def asBool : Value → Run Bool
  | .bool b => pure b
  | _ => throw .illegal

/-- The address and the elements of a list. -/
def asList (v : Value) : Run (Nat × List Value) := do
  match v with
  | .ref address =>
    match (← get).store[address]? with
    | some (.list elements) => pure (address, elements)
    | _ => throw .illegal
  | _ => throw .illegal

/-- Put an element at the end of a list. -/
def append (list element : Value) : Run Unit := do
  let (address, elements) ← asList list
  modify fun env => { env with store := env.store.set address (.list (elements ++ [element])) }

/-- The element at a position of a list. -/
def element (elements : List Value) (position : Int32) : Run Value :=
  if position < 0 then throw .indexOutOfRange
  else
    match elements[position.toInt.toNat]? with
    | some v => pure v
    | none => throw .indexOutOfRange

section Results

variable {env : Env} {address : Nat} {elements : List Value}

theorem lookup_some {name : String} {v : Value} (h : env.vars name = some v) :
    lookup name env = (.ok v, env) := by
  change (match env.vars name with | some v => (pure v : Run Value) | none => throw _) env = _
  rw [h]
  rfl

theorem lookup_none {name : String} (h : env.vars name = none) :
    lookup name env = (.error .unassigned, env) := by
  change (match env.vars name with | some v => (pure v : Run Value) | none => throw _) env = _
  rw [h]
  rfl

theorem asList_eq (h : env.store[address]? = some (.list elements)) :
    asList (.ref address) env = (.ok (address, elements), env) := by
  change (match env.store[address]? with
    | some (.list elements) => (pure (address, elements) : Run (Nat × List Value))
    | _ => throw _) env = _
  rw [h]
  rfl

theorem append_eq {v : Value} (h : env.store[address]? = some (.list elements)) :
    append (.ref address) v env =
      (.ok (), { env with store := env.store.set address (.list (elements ++ [v])) }) := by
  rw [append, Attempt.bind_ok (asList_eq h)]
  rfl

end Results

end Run

-- ============================================================================
-- Expressions
-- ============================================================================

/-- Arithmetic on 32 bits. Division truncates. -/
def ArithOp.apply (op : ArithOp) (a b : Int32) : Run Int32 :=
  match op with
  | .add => pure (a + b)
  | .sub => pure (a - b)
  | .mul => pure (a * b)
  | .div => if b = 0 then throw .divisionByZero else pure (a / b)

def OrderOp.holds : OrderOp → Int32 → Int32 → Bool
  | .lt, a, b => a < b
  | .gt, a, b => a > b

/-- Whether the left operand decides a connective; it is the result then. -/
def LogicOp.decides : LogicOp → Bool → Bool
  | .and, a => !a
  | .or, a => a

/-- The value of an expression without calls, where `functions` are the names of
    functions. -/
def Expr.eval (functions : List String) : Expr → Run Value
  | .int n => pure (.int n)
  | .bool b => pure (.bool b)
  | .ident name =>
    if name ∈ functions then Run.allocate (.function name) else Run.lookup name
  | .group e => e.eval functions
  | .binary (.arith op) l r => do
    let a ← Run.asInt (← l.eval functions)
    let b ← Run.asInt (← r.eval functions)
    pure (.int (← op.apply a b))
  | .binary (.order op) l r => do
    let a ← Run.asInt (← l.eval functions)
    let b ← Run.asInt (← r.eval functions)
    pure (.bool (op.holds a b))
  | .binary (.logic op) l r => do
    let a ← Run.asBool (← l.eval functions)
    if op.decides a then pure (.bool a) else
      pure (.bool (← Run.asBool (← r.eval functions)))
  | .binary .equal l r => do
    let a ← l.eval functions
    let b ← r.eval functions
    pure (.bool (a = b))
  | .unary .not e => do pure (.bool (!(← Run.asBool (← e.eval functions))))
  | .unary .neg e => do pure (.int (-(← Run.asInt (← e.eval functions))))
  | .index l r => do
    let list ← l.eval functions
    let position ← Run.asInt (← r.eval functions)
    Run.element (← Run.asList list).2 position
  | .append l r => do
    let list ← l.eval functions
    let v ← r.eval functions
    Run.append list v
    pure list
  | .size l => do
    let (_, elements) ← Run.asList (← l.eval functions)
    pure (.int (Int32.ofNat elements.length))
  | .call _ _ | .field _ _ => throw .illegal

/-- A step that assigns no variable, whether it succeeds or not. -/
def Run.KeepsVars {α : Type} (x : Run α) : Prop :=
  ∀ env, (x env).2.vars = env.vars

namespace Run.KeepsVars

variable {α β : Type}

theorem pure (a : α) : KeepsVars (Pure.pure a) := fun _ => rfl

theorem throw (trap : Trap) : KeepsVars (MonadExcept.throw trap : Run α) := fun _ => rfl

theorem bind {x : Run α} {k : α → Run β} (hx : KeepsVars x) (hk : ∀ a, KeepsVars (k a)) :
    KeepsVars (x >>= k) := by
  intro env
  have hvars := hx env
  rcases Attempt.bind_cases x k env with ⟨trap, env', hr, hbind⟩ | ⟨a, env', hr, hbind⟩
  · rw [hr] at hvars
    rw [hbind]
    exact hvars
  · rw [hr] at hvars
    rw [hbind, hk a env']
    exact hvars

theorem asInt (v : Value) : KeepsVars (Run.asInt v) := by
  cases v <;> exact fun _ => rfl

theorem asBool (v : Value) : KeepsVars (Run.asBool v) := by
  cases v <;> exact fun _ => rfl

theorem lookup (name : String) : KeepsVars (Run.lookup name) := by
  intro env
  cases h : env.vars name with
  | none => rw [lookup_none h]
  | some v => rw [lookup_some h]

theorem asList (v : Value) : KeepsVars (Run.asList v) := by
  cases v with
  | ref address =>
      refine bind (fun _ => rfl) fun env => ?_
      split
      · exact pure _
      · exact throw _
  | _ => exact throw _

theorem append (list v : Value) : KeepsVars (Run.append list v) :=
  bind (asList list) fun _ _ => rfl

theorem element (elements : List Value) (position : Int32) :
    KeepsVars (Run.element elements position) := by
  rw [Run.element]
  split
  · exact throw _
  · split
    · exact pure _
    · exact throw _

theorem apply (op : ArithOp) (a b : Int32) : KeepsVars (op.apply a b) := by
  cases op with
  | div =>
      rw [ArithOp.apply]
      split
      · exact throw _
      · exact pure _
  | _ => exact pure _

end Run.KeepsVars

/-- Expressions do not assign variables. -/
theorem Expr.eval_keepsVars (functions : List String) : ∀ e : Expr, (e.eval functions).KeepsVars
  | .int _ => .pure _
  | .bool _ => .pure _
  | .ident name => by
      rw [eval]
      split
      · exact fun _ => rfl
      · exact .lookup name
  | .group e => eval_keepsVars functions e
  | .binary (.arith op) l r =>
      .bind (eval_keepsVars functions l) fun v => .bind (.asInt v) fun a =>
        .bind (eval_keepsVars functions r) fun w => .bind (.asInt w) fun b =>
          .bind (.apply op a b) fun _ => .pure _
  | .binary (.order _) l r =>
      .bind (eval_keepsVars functions l) fun v => .bind (.asInt v) fun _ =>
        .bind (eval_keepsVars functions r) fun w => .bind (.asInt w) fun _ => .pure _
  | .binary (.logic op) l r => by
      rw [eval]
      refine .bind (eval_keepsVars functions l) fun v => .bind (.asBool v) fun a => ?_
      split
      · exact .pure _
      · exact .bind (eval_keepsVars functions r) fun w => .bind (.asBool w) fun _ => .pure _
  | .binary .equal l r =>
      .bind (eval_keepsVars functions l) fun _ => .bind (eval_keepsVars functions r) fun _ =>
        .pure _
  | .unary .not e => .bind (eval_keepsVars functions e) fun v => .bind (.asBool v) fun _ => .pure _
  | .unary .neg e => .bind (eval_keepsVars functions e) fun v => .bind (.asInt v) fun _ => .pure _
  | .index l r =>
      .bind (eval_keepsVars functions l) fun list => .bind (eval_keepsVars functions r) fun w =>
        .bind (.asInt w) fun n => .bind (.asList list) fun found => .element found.2 n
  | .append l r =>
      .bind (eval_keepsVars functions l) fun list => .bind (eval_keepsVars functions r) fun v =>
        .bind (.append list v) fun _ => .pure _
  | .size l => .bind (eval_keepsVars functions l) fun list => .bind (.asList list) fun _ => .pure _
  | .call _ _ => .throw _
  | .field _ _ => .throw _

-- ============================================================================
-- Statements
-- ============================================================================

/-- How a statement ends if it is not stopped. -/
inductive Completion where
  | next
  | returned
  deriving DecidableEq

/-- Go on after a statement, unless it has returned. -/
def Run.andThen (first rest : Run Completion) : Run Completion := do
  match ← first with
  | .next => rest
  | .returned => pure .returned

/-- Do the same a number of times. -/
def Run.iterate (body : Run Completion) : Nat → Run Completion
  | 0 => pure .next
  | n + 1 => body.andThen (iterate body n)

/-- The value that a variable of the type starts with. -/
def Ty.zero : Ty → Run Value
  | .int => pure (.int 0)
  | .bool => pure (.bool false)
  | .list _ => Run.allocate (.list [])
  | _ => throw .illegal

def Run.display : Value → Run Unit
  | .int n => Run.print (.int n)
  | .bool b => Run.print (.bool b)
  | .ref _ => throw .illegal

mutual

/-- Execute a statement without calls. The count of a loop is evaluated once. -/
def Stmt.exec (functions : List String) : Stmt → Run Completion
  | .block body => Stmt.execAll functions body
  | .declare name ty none => do
    Run.assign name (← ty.zero)
    pure .next
  | .declare name _ (some e) | .assign (.ident name) e => do
    Run.assign name (← e.eval functions)
    pure .next
  | .cond test positive negative => do
    if ← Run.asBool (← test.eval functions) then positive.exec functions
    else Stmt.execOption functions negative
  | .loop count body => do
    let n ← Run.asInt (← count.eval functions)
    Run.iterate (body.exec functions) n.toInt.toNat
  | .ret none => pure .returned
  | .display e => do
    Run.display (← e.eval functions)
    pure .next
  | .append l r => do
    let _ ← (Expr.append l r).eval functions
    pure .next
  | .size e => do
    let _ ← (Expr.size e).eval functions
    pure .next
  | .assign _ _ | .call _ _ | .ret (some _) => throw .illegal

def Stmt.execOption (functions : List String) : Option Stmt → Run Completion
  | none => pure .next
  | some s => s.exec functions

def Stmt.execAll (functions : List String) : List Stmt → Run Completion
  | [] => pure .next
  | s :: rest => (s.exec functions).andThen (Stmt.execAll functions rest)

end

/-- Execute the body of a program. -/
def Program.interpret (program : Program) : Except Trap Completion × Env :=
  Stmt.execAll (program.functions.map FunctionDef.name) program.body Env.initial

end JasminGen
