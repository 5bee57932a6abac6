/-
  JasminGen.Proofs.Simulation

  The code of expressions without calls does on the machine what the interpreter does. An
  environment of the interpreter determines the heap and the output of the machine, and
  what is in the slots of variables.

  An expression without calls is evaluated to the same value whether or not the evaluation
  knows of calls, and the machine with calls executes its code as the machine without them
  does. What is known of the code of expressions with calls is read off for those without.

  Main definitions: `Agrees`, `Simulates`, `Host`, `Host.Computes`. Main results:
  `Env.Typed.heapTyped`, `Host.agrees_of_lowered`, `Host.computes_of_lowered`.
-/

import JasminGen.Proofs.Calls.Simulation
import JasminGen.Proofs.Calls.Types
import JasminGen.Proofs.Soundness

namespace JasminGen

-- ============================================================================
-- Environments on the machine
-- ============================================================================

/-- How a value stands on the stack, in a slot or in a list. The first object of the
    machine is the receiver. -/
def Value.word : Value → Word
  | .int n => .integer n
  | .bool b => .boolean b
  | .ref address => .ref (address + 1)

def Object.cell : Object → Cell
  | .list elements => .list (elements.map Value.word)
  | .function name => .fptr (.ref 0) name

def Env.heap (env : Env) : List Cell :=
  .plain entryClass :: env.store.map Object.cell

/-- The machine in an environment, with a stack and slots. -/
def Env.machine (env : Env) (stack : List Word) (slots : Nat → Option Word) : Machine :=
  ⟨stack, slots, env.heap, env.printed⟩

/-- An environment as the state of an evaluation that has made no calls. -/
def Env.world (env : Env) : World :=
  ⟨⟨env.heap, env.printed⟩, []⟩

/-- Slots hold the receiver and the values of variables. -/
structure Holds (table : SlotTable) (slots : Nat → Option Word) (vars : String → Option Value) :
    Prop where
  receiver : slots receiverSlot = some (.ref 0)
  named : ∀ name slot, table.get? name = some slot → slots slot = (vars name).map Value.word

theorem Value.word_not_isPrimitive (v : Value) : v.word.isPrimitive = false := by
  cases v <;> rfl

theorem Value.word_inj {v w : Value} : v.word = w.word ↔ v = w := by
  cases v <;> cases w <;> simp [word]

theorem Env.heap_get? {env : Env} {address : Nat} {o : Object}
    (h : env.store[address]? = some o) : env.heap[address + 1]? = some o.cell := by
  rw [heap, List.getElem?_cons_succ, List.getElem?_map, h]
  rfl

theorem Env.heap_set {env : Env} {address : Nat} {o : Object} :
    Env.heap { env with store := env.store.set address o } =
      env.heap.set (address + 1) o.cell := by
  rw [heap, heap, List.set_cons_succ, List.map_set]

theorem Env.heap_push {env : Env} {o : Object} :
    Env.heap { env with store := env.store ++ [o] } = env.heap ++ [o.cell] := by
  simp [heap]

theorem Env.heap_length (env : Env) : env.heap.length = env.store.length + 1 := by
  simp [heap]

theorem Env.world_set {env : Env} {address : Nat} {o : Object} :
    Env.world { env with store := env.store.set address o } =
      { env.world with heap := env.heap.set (address + 1) o.cell } := by
  rw [world, heap_set]
  rfl

theorem Env.world_push {env : Env} {o : Object} :
    Env.world { env with store := env.store ++ [o] } =
      { env.world with heap := env.heap ++ [o.cell] } := by
  rw [world, heap_push]
  rfl

/-- The types of the objects of the machine, if `types` are those of the store. The
    receiver has none. -/
def heapTypes (types : List Ty) : Nat → Option Ty
  | 0 => none
  | address + 1 => types[address]?

section Typed

variable {table : SymbolTable} {id : ScopeId} {types : List Ty} {ty : Ty} {env : Env}

theorem Value.Typed.word {v : Value} (h : v.Typed types ty) :
    v.word.Typed (heapTypes types) ty := by
  cases h with
  | int => exact .integer
  | bool => exact .boolean
  | list ha => exact .object ha
  | pointer ha => exact .object ha

theorem Object.Typed.cell {o : Object} (h : o.Typed table types ty) :
    o.cell.Typed table (heapTypes types) ty := by
  cases h with
  | list hs => exact .list (List.forall_mem_map.mpr fun v hv => (hs v hv).word)
  | function hf => exact .fptr hf

/-- The objects of a typed environment have their types on the machine, too. -/
theorem Env.Typed.heapTyped (h : env.Typed table id types) :
    HeapTyped table (heapTypes types) env.heap := by
  intro address ty ha
  cases address with
  | zero => cases ha
  | succ address =>
      have hlt : address < env.store.length := h.length ▸ (List.getElem?_eq_some_iff.mp ha).1
      have ho := List.getElem?_eq_getElem hlt
      exact ⟨_, Env.heap_get? ho, (h.store address _ _ ho ha).cell⟩

end Typed

-- ============================================================================
-- Evaluations and the interpreter
-- ============================================================================

/-- In an environment, a step of an evaluation does what a step of the interpreter does. -/
def Agrees {α β : Type} (f : α → β) (x : Evaluation β) (y : Run α) (env : Env) : Prop :=
  x env.world = ((y env).1.map f, (y env).2.world)

namespace Agrees

variable {α α' β β' : Type} {f : α → β} {g : α' → β'} {x : Evaluation β} {y : Run α} {env : Env}

theorem pure (a : α) : Agrees f (Pure.pure (f a)) (Pure.pure a) env := rfl

theorem bind {k : β → Evaluation β'} {k' : α → Run α'} (hx : Agrees f x y env)
    (hk : ∀ a env', y env = (.ok a, env') → Agrees g (k (f a)) (k' a) env') :
    Agrees g (x >>= k) (y >>= k') env := by
  unfold Agrees at hx
  rcases Attempt.bind_cases y k' env with ⟨trap, env', hy, hbind⟩ | ⟨a, env', hy, hbind⟩
  · rw [hy] at hx
    rw [Agrees, hbind, Attempt.bind_error hx]
    rfl
  · rw [hy] at hx
    rw [Agrees, hbind, Attempt.bind_ok hx]
    exact hk a env' hy

/-- The evaluation goes on after the step, and finds nothing to do. -/
theorem followed {k : β → Evaluation β} (hx : Agrees f x y env)
    (hk : ∀ a env', y env = (.ok a, env') → k (f a) env'.world = (.ok (f a), env'.world)) :
    Agrees f (x >>= k) y env := by
  unfold Agrees at hx ⊢
  cases hy : y env with
  | mk result env' =>
      rw [hy] at hx
      cases result with
      | error trap => exact Attempt.bind_error hx
      | ok a =>
          rw [Attempt.bind_ok hx, hk a env' hy]
          rfl

theorem asInt (v : Value) : Agrees id (Evaluation.asInt v.word) (Run.asInt v) env := by
  cases v <;> rfl

theorem asBool (v : Value) : Agrees id (Evaluation.asBool v.word) (Run.asBool v) env := by
  cases v <;> rfl

theorem compute (op : ArithOp) (a b : Int32) : Agrees id (op.compute a b) (op.apply a b) env := by
  cases op with
  | add =>
      rw [ArithOp.compute_add]
      exact .pure _
  | sub =>
      rw [ArithOp.compute_sub]
      exact .pure _
  | mul =>
      rw [ArithOp.compute_mul]
      exact .pure _
  | div =>
      rw [ArithOp.compute_div, ArithOp.apply]
      split
      · rfl
      · exact .pure _

theorem lookup (name : String) :
    Agrees Value.word (Evaluation.read ((env.vars name).map Value.word)) (Run.lookup name)
      env := by
  cases hv : env.vars name with
  | none =>
      rw [Agrees, Run.lookup_none hv]
      rfl
  | some v =>
      rw [Agrees, Run.lookup_some hv, Option.map_some, Evaluation.read,
        if_neg (by simp [v.word_not_isPrimitive])]
      rfl

/-- A function pointer is made for the receiver. -/
theorem pointer (name : String) :
    Agrees Value.word (do
      let address ← Evaluation.allocate (.raw fptrClass)
      Evaluation.construct address (.fptr (← Evaluation.read (some (.ref 0))) name)
      Pure.pure (.ref address)) (Run.allocate (.function name)) env := by
  have hmade : (env.heap ++ [Cell.raw fptrClass]).set env.heap.length (.fptr (.ref 0) name) =
      env.heap ++ [(Object.function name).cell] := by
    rw [List.set_append_right _ _ (Nat.le_refl _), Nat.sub_self]
    rfl
  change (Except.ok (Word.ref env.heap.length), _) = (Except.ok (Word.ref (env.store.length + 1)),
    Env.world { env with store := env.store ++ [.function name] })
  rw [Env.world_push, ← hmade, ← env.heap_length]
  rfl

variable {address : Nat} {elements : List Value}

theorem asList (h : env.store[address]? = some (.list elements)) :
    Agrees (fun found => found.2.map Value.word) (Evaluation.asList (.ref (address + 1)))
      (Run.asList (.ref address)) env := by
  have hlist : listAt? env.world.heap (.ref (address + 1)) = some (elements.map Value.word) :=
    listAt?_eq_some.mpr ⟨_, rfl, Env.heap_get? h⟩
  rw [Agrees, Run.asList_eq h, Evaluation.asList_of_some hlist]
  rfl

theorem element (elements : List Value) (n : Int32) :
    Agrees Value.word (Evaluation.element (elements.map Value.word) n)
      (Run.element elements n) env := by
  rw [Evaluation.element, Run.element]
  split
  · rfl
  · rw [List.getElem?_map]
    cases elements[n.toInt.toNat]? with
    | none => rfl
    | some v => exact .pure v

theorem append (h : env.store[address]? = some (.list elements)) (v : Value) :
    Agrees id (Evaluation.append (.ref (address + 1)) v.word) (Run.append (.ref address) v)
      env := by
  have hlist : listAt? env.world.heap (.ref (address + 1)) = some (elements.map Value.word) :=
    listAt?_eq_some.mpr ⟨_, rfl, Env.heap_get? h⟩
  have hgrown : (Object.list (elements ++ [v])).cell =
      .list (elements.map Value.word ++ [v.word]) := by
    simp [Object.cell]
  rw [Agrees, Run.append_eq h, Env.world_set, hgrown]
  simp only [Evaluation.append.eq_def, hlist]
  rfl

end Agrees

-- ============================================================================
-- Simulations
-- ============================================================================

/-- From a place and a state, the machine does what led the interpreter to a result: it
    comes to the place and state that `next` gives, or stops with the same trap. -/
def Simulates (code : List Code) (place : Nat) (m : Machine) {α : Type}
    (next : α → Env → Nat × Machine) : Except Trap α × Env → Prop
  | (.ok a, env) => Reaches code place m (next a env).1 (next a env).2
  | (.error trap, env) => Runs code place m (.trapped trap, env.printed)

section Simulates

variable {code : List Code} {place place' : Nat} {m m' : Machine} {α : Type}
  {next : α → Env → Nat × Machine} {env : Env}

theorem Simulates.after {r : Except Trap α × Env} (h : Reaches code place m place' m')
    (hr : Simulates code place' m' next r) : Simulates code place m next r := by
  obtain ⟨result, env'⟩ := r
  cases result with
  | ok a => exact h.trans hr
  | error trap => exact h _ hr

theorem Simulates.pure {a : α} (h : next a env = (place, m)) :
    Simulates code place m next ((Pure.pure a : Run α) env) := by
  change Reaches code place m (next a env).1 (next a env).2
  rw [h]
  exact fun _ hrun => hrun

/-- One instruction is executed first. -/
theorem Simulates.exec {i : Instr} {r : Except Trap α × Env}
    (hi : code[place]? = some (.instr i)) (hjump : i.jump? = none) (hexec : i.exec m = .ok m')
    (hr : Simulates code (place + 1) m' next r) : Simulates code place m next r :=
  .after (.exec hi hjump hexec) hr

end Simulates

-- ============================================================================
-- Code that runs
-- ============================================================================

theorem Keeps.of_refused (_target : Word) (_ws : List Word) (g : Globals) : Keeps g.heap g.heap :=
  .refl g.heap

/-- Nothing can be called. -/
def Callee.refusing : Callee where
  invoke _ _ g := (.error .illegal, g)
  keeps := Keeps.of_refused

/-- Code that runs, with what is known of it: it calls nothing, types are those of the
    symbol table, and `slots` has the slots of all variables. -/
structure Host where
  setting : Setting
  id : ScopeId
  functions : List String
  code : List Code
  slots : SlotTable
  slots_sound : slots.Sound
  oracle_eq : setting.oracle = setting.symbols.typeOf
  functions_iff : ∀ name, name ∈ functions ↔ (setting.symbols.function? name).isSome
  without_calls : WithoutCalls code

namespace Host

/-- The lines of fragments stand in the code from the place on. -/
abbrev Installed (H : Host) (place : Nat) (parts : List Fragment) : Prop :=
  JasminGen.Installed H.code place parts

/-- The constructor with the values of variables, as a function that is executed. -/
def activation (H : Host) (vars : String → Option Value) : Activation where
  symbols := H.setting.symbols
  id := H.id
  vars name := (vars name).map Value.word
  receiver := some (.ref 0)
  callee := .refusing

/-- The same code with slots that hold the values of variables. -/
def callHost (H : Host) {slots : Nat → Option Word} {vars : String → Option Value}
    (h : Holds H.slots slots vars) : CallHost where
  setting := H.setting
  activation := H.activation vars
  code := H.code
  table := H.slots
  slots := slots
  symbols_eq := rfl
  oracle_eq := H.oracle_eq
  receiver_eq := h.receiver
  named_eq := h.named

/-- An environment and slots in which well-typed code can run. -/
structure Ready (H : Host) (types : List Ty) (env : Env) (slots : Nat → Option Word) : Prop where
  typed : env.Typed H.setting.symbols H.id types
  holds : Holds H.slots slots env.vars

/-- The code of an expression puts the value that the interpreter gives on the stack. -/
structure Computes (H : Host) (e : Expr) (ty : Ty) (parts : List Fragment) : Prop where
  typed : HasType H.setting.symbols H.id e ty
  free : e.callFree = true
  simulates : ∀ {types : List Ty} {env : Env} {place : Nat} {stack : List Word}
    {slots : Nat → Option Word}, H.Ready types env slots → H.Installed place parts →
    Simulates H.code place (env.machine stack slots)
      (fun v env' => (place + codeSize parts, env'.machine (v.word :: stack) slots))
      (e.eval H.functions env)

theorem Computes.ready_of_eval {H : Host} {e : Expr} {ty : Ty} {parts : List Fragment}
    {types : List Ty} {env env' : Env} {slots : Nat → Option Word} {v : Value}
    (h : H.Computes e ty parts) (hready : H.Ready types env slots)
    (heval : e.eval H.functions env = (.ok v, env')) :
    ∃ types', types <+: types' ∧ H.Ready types' env' slots ∧ v.Typed types' ty := by
  have hsound := h.typed.eval_sound H.functions_iff h.free hready.typed
  have hvars := e.eval_keepsVars H.functions env
  rw [heval] at hsound hvars
  obtain ⟨types', hle, henv, hv⟩ := hsound
  refine ⟨types', hle, ⟨henv, ?_⟩, hv⟩
  rw [hvars]
  exact hready.holds

-- ============================================================================
-- Values of expressions
-- ============================================================================

/-- An expression has the same value for the evaluation and for the interpreter, in every
    typed environment. -/
structure AgreesOn (H : Host) (e : Expr) (ty : Ty) : Prop where
  typed : HasType H.setting.symbols H.id e ty
  free : e.callFree = true
  agrees : ∀ {types : List Ty} {env : Env} {vars : String → Option Value},
    env.Typed H.setting.symbols H.id types → env.vars = vars →
    Agrees Value.word (e.value (H.activation vars)) (e.eval H.functions) env

section AgreesOn

variable {H : Host} {vars : String → Option Value} {e : Expr} {types : List Ty} {env : Env}
  {α β : Type} {g : α → β}

/-- The rest of the evaluation agrees with the rest of the interpreter. -/
theorem AgreesOn.bind {ty : Ty} {k : Word → Evaluation β} {k' : Value → Run α}
    (h : H.AgreesOn e ty) (henv : env.Typed H.setting.symbols H.id types)
    (hvars : env.vars = vars)
    (hk : ∀ types' v env', types <+: types' → env'.Typed H.setting.symbols H.id types' →
      env'.vars = vars → v.Typed types' ty → Agrees g (k v.word) (k' v) env') :
    Agrees g (e.value (H.activation vars) >>= k) (e.eval H.functions >>= k') env := by
  refine (h.agrees henv hvars).bind fun v env' heval => ?_
  have hsound := h.typed.eval_sound H.functions_iff h.free henv
  have hkept := e.eval_keepsVars H.functions env
  rw [heval] at hsound hkept
  obtain ⟨types', hle, henv', hv⟩ := hsound
  exact hk types' v env' hle henv' (hkept.trans hvars) hv

theorem AgreesOn.int {k : Int32 → Evaluation β} {k' : Int32 → Run α}
    (h : H.AgreesOn e .int) (henv : env.Typed H.setting.symbols H.id types)
    (hvars : env.vars = vars)
    (hk : ∀ types' n env', types <+: types' → env'.Typed H.setting.symbols H.id types' →
      env'.vars = vars → Agrees g (k n) (k' n) env') :
    Agrees g (do let n ← Evaluation.asInt (← e.value (H.activation vars)); k n)
      (do let n ← Run.asInt (← e.eval H.functions); k' n) env := by
  refine h.bind henv hvars fun types' v env' hle henv' hvars' hv => ?_
  obtain ⟨n, rfl⟩ := hv.int_inv
  exact hk types' n env' hle henv' hvars'

theorem AgreesOn.bool {k : Bool → Evaluation β} {k' : Bool → Run α}
    (h : H.AgreesOn e .bool) (henv : env.Typed H.setting.symbols H.id types)
    (hvars : env.vars = vars)
    (hk : ∀ types' b env', types <+: types' → env'.Typed H.setting.symbols H.id types' →
      env'.vars = vars → Agrees g (k b) (k' b) env') :
    Agrees g (do let b ← Evaluation.asBool (← e.value (H.activation vars)); k b)
      (do let b ← Run.asBool (← e.eval H.functions); k' b) env := by
  refine h.bind henv hvars fun types' v env' hle henv' hvars' hv => ?_
  obtain ⟨b, rfl⟩ := hv.bool_inv
  exact hk types' b env' hle henv' hvars'

end AgreesOn

section Constructs

variable {H : Host} {e l r : Expr}

theorem agreesOn_ident {name : String} {ty : Ty}
    (ht : HasType H.setting.symbols H.id (.ident name) ty) : H.AgreesOn (.ident name) ty := by
  refine ⟨ht, rfl, fun henv hvars => ?_⟩
  subst hvars
  rw [Expr.eval]
  split
  · next hmem =>
      obtain ⟨signature, hf⟩ := Option.isSome_iff_exists.mp ((H.functions_iff name).mp hmem)
      rw [Expr.value_function hf]
      exact .pointer name
  · next hmem =>
      have hf : H.setting.symbols.function? name = none := by
        rw [H.functions_iff name] at hmem
        simpa using hmem
      rw [Expr.value_variable hf]
      exact .lookup name

theorem AgreesOn.arith {op : ArithOp} (hl : H.AgreesOn l .int)
    (hr : H.AgreesOn r .int) : H.AgreesOn (.binary (.arith op) l r) .int := by
  refine ⟨.arith hl.typed hr.typed, Bool.and_eq_true_iff.mpr ⟨hl.free, hr.free⟩,
    fun henv hvars => ?_⟩
  rw [Expr.value, Expr.eval]
  refine hl.int henv hvars fun _ a _ _ henv₁ hvars₁ => ?_
  refine hr.int henv₁ hvars₁ fun _ b _ _ henv₂ hvars₂ => ?_
  exact .bind (.compute op a b) fun n _ _ => .pure (Value.int n)

theorem AgreesOn.order {op : OrderOp} (hl : H.AgreesOn l .int)
    (hr : H.AgreesOn r .int) : H.AgreesOn (.binary (.order op) l r) .bool := by
  refine ⟨.order hl.typed hr.typed, Bool.and_eq_true_iff.mpr ⟨hl.free, hr.free⟩,
    fun henv hvars => ?_⟩
  rw [Expr.value, Expr.eval]
  refine hl.int henv hvars fun _ a _ _ henv₁ hvars₁ => ?_
  exact hr.int henv₁ hvars₁ fun _ b _ _ _ _ => .pure (Value.bool (op.holds a b))

theorem AgreesOn.logic {op : LogicOp} (hl : H.AgreesOn l .bool)
    (hr : H.AgreesOn r .bool) : H.AgreesOn (.binary (.logic op) l r) .bool := by
  refine ⟨.logic hl.typed hr.typed, Bool.and_eq_true_iff.mpr ⟨hl.free, hr.free⟩,
    fun henv hvars => ?_⟩
  rw [Expr.value, Expr.eval]
  refine hl.bool henv hvars fun _ a _ _ henv₁ hvars₁ => ?_
  split
  · exact .pure (Value.bool a)
  · exact hr.bool henv₁ hvars₁ fun _ b _ _ _ _ => .pure (Value.bool b)

/-- Integers and booleans are compared without their wrappers. -/
theorem AgreesOn.equalValues {ty : Ty} {m : Method}
    (hty : H.setting.symbols.typeOf H.id l = .ok ty) (hm : ty.unboxer? = some m)
    (hl : H.AgreesOn l ty) (hr : H.AgreesOn r ty) :
    H.AgreesOn (.binary .equal l r) .bool := by
  refine ⟨.equal hl.typed hr.typed (Ty.ne_void_of_unboxer? hm),
    Bool.and_eq_true_iff.mpr ⟨hl.free, hr.free⟩, fun henv hvars => ?_⟩
  rw [Expr.eval]
  cases ty with
  | int =>
      rw [Expr.value_equal_int hty]
      refine hl.bind henv hvars fun _ v _ _ henv₁ hvars₁ hv => ?_
      obtain ⟨a, rfl⟩ := hv.int_inv
      refine hr.bind henv₁ hvars₁ fun _ w _ _ _ _ hw => ?_
      obtain ⟨b, rfl⟩ := hw.int_inv
      have hsame : decide (Value.int a = .int b) = decide (a = b) := by simp
      rw [hsame]
      exact .pure (Value.bool (a = b))
  | bool =>
      rw [Expr.value_equal_bool hty]
      refine hl.bind henv hvars fun _ v _ _ henv₁ hvars₁ hv => ?_
      obtain ⟨a, rfl⟩ := hv.bool_inv
      refine hr.bind henv₁ hvars₁ fun _ w _ _ _ _ hw => ?_
      obtain ⟨b, rfl⟩ := hw.bool_inv
      have hsame : decide (Value.bool a = .bool b) = decide (a = b) := by simp
      rw [hsame]
      exact .pure (Value.bool (a = b))
  | _ => cases hm

/-- Lists and function pointers are compared by identity. -/
theorem AgreesOn.equalReferences {ty : Ty} (hty : H.setting.symbols.typeOf H.id l = .ok ty)
    (href : (∃ element, ty = .list element) ∨ ∃ params result, ty = .fptr params result)
    (hl : H.AgreesOn l ty) (hr : H.AgreesOn r ty) :
    H.AgreesOn (.binary .equal l r) .bool := by
  obtain ⟨hne, hint, hbool⟩ := Ty.ne_of_reference href
  refine ⟨.equal hl.typed hr.typed hne, Bool.and_eq_true_iff.mpr ⟨hl.free, hr.free⟩,
    fun henv hvars => ?_⟩
  rw [Expr.eval, Expr.value_equal_object hty hint hbool]
  refine hl.bind henv hvars fun _ v _ _ henv₁ hvars₁ hv => ?_
  refine hr.bind henv₁ hvars₁ fun _ w _ _ _ _ hw => ?_
  have hsame : Evaluation.identical v.word w.word = pure (decide (v = w)) := by
    rw [Evaluation.identical, hv.word.isObject hint hbool, hw.word.isObject hint hbool]
    simp [Value.word_inj]
  rw [hsame, pure_bind]
  exact .pure (Value.bool (v = w))

theorem AgreesOn.not (h : H.AgreesOn e .bool) : H.AgreesOn (.unary .not e) .bool := by
  refine ⟨.not h.typed, h.free, fun henv hvars => ?_⟩
  rw [Expr.value, Expr.eval]
  exact h.bool henv hvars fun _ b _ _ _ _ => .pure (Value.bool (!b))

theorem AgreesOn.neg (h : H.AgreesOn e .int) : H.AgreesOn (.unary .neg e) .int := by
  refine ⟨.neg h.typed, h.free, fun henv hvars => ?_⟩
  rw [Expr.value, Expr.eval]
  refine h.int henv hvars fun _ n _ _ _ _ => ?_
  rw [Int32.ofInt_neg, Int32.ofInt_toInt]
  exact .pure (Value.int (-n))

theorem AgreesOn.index {ty : Ty} (hty : H.setting.symbols.typeOf H.id (.index l r) = .ok ty)
    (hl : H.AgreesOn l (.list ty)) (hr : H.AgreesOn r .int) :
    H.AgreesOn (.index l r) ty := by
  refine ⟨.index hl.typed hr.typed, Bool.and_eq_true_iff.mpr ⟨hl.free, hr.free⟩,
    fun henv hvars => ?_⟩
  rw [Expr.value, Expr.eval]
  refine hl.bind henv hvars fun _ list _ _ henv₁ hvars₁ hlist => ?_
  refine hr.int henv₁ hvars₁ fun _ n env₂ hle henv₂ hvars₂ => ?_
  obtain ⟨address, rfl, ha⟩ := (hlist.mono hle).list_inv
  obtain ⟨elements, helements, htyped⟩ := henv₂.list_at ha
  refine .bind (.asList helements) fun found env₃ hfound => ?_
  cases (Run.asList_eq helements).symm.trans hfound
  -- the element has the class that it is narrowed to
  refine .followed (.element elements n) fun v env₄ heq => ?_
  have hsound := Sound.element henv₂ htyped n
  rw [heq] at hsound
  obtain ⟨types₄, -, henv₄, hv⟩ := hsound
  simp only [Activation.narrow, activation, hty, Evaluation.narrow]
  split
  · next className hclass => exact if_pos (henv₄.heapTyped.class_eq hv.word hclass)
  · rfl

/-- An append leaves the list on the stack. -/
theorem AgreesOn.append {element : Ty} (hne : element ≠ .void)
    (hl : H.AgreesOn l (.list element)) (hr : H.AgreesOn r element) :
    H.AgreesOn (.append l r) (.list element) := by
  refine ⟨.append hl.typed hr.typed hne, Bool.and_eq_true_iff.mpr ⟨hl.free, hr.free⟩,
    fun henv hvars => ?_⟩
  rw [Expr.value, Expr.eval]
  refine hl.bind henv hvars fun _ list _ _ henv₁ hvars₁ hlist => ?_
  refine hr.bind henv₁ hvars₁ fun _ v _ hle henv₂ hvars₂ hv => ?_
  obtain ⟨address, rfl, ha⟩ := (hlist.mono hle).list_inv
  obtain ⟨elements, helements, -⟩ := henv₂.list_at ha
  exact .bind (.append helements v) fun _ _ _ => .pure (Value.ref address)

theorem AgreesOn.listSize {element : Ty} (h : H.AgreesOn e (.list element)) :
    H.AgreesOn (.size e) .int := by
  refine ⟨.size h.typed, h.free, fun henv hvars => ?_⟩
  rw [Expr.value, Expr.eval]
  refine h.bind henv hvars fun _ list _ _ henv₁ hvars₁ hlist => ?_
  obtain ⟨address, rfl, ha⟩ := hlist.list_inv
  obtain ⟨elements, helements, -⟩ := henv₁.list_at ha
  refine .bind (.asList helements) fun found _ _ => ?_
  rw [List.length_map]
  exact .pure (Value.int (Int32.ofNat found.2.length))

end Constructs

/-- The evaluation with calls and the interpreter give the same values to well-typed
    expressions without calls, if these can be lowered. -/
theorem agrees_of_lowered {H : Host} : ∀ {e : Expr} {ty : Ty} {f f' : Frame}
    {parts : List Fragment}, ExprLowered H.setting (.one e) f parts f' → f.activeScope = H.id →
    HasType H.setting.symbols H.id e ty → e.callFree = true → H.AgreesOn e ty
  | .int n, ty, f, f', parts, h, hid, ht, hfree => by
      obtain rfl := ht.int_eq
      exact ⟨ht, rfl, fun _ _ => .pure (Value.int n)⟩
  | .bool b, ty, f, f', parts, h, hid, ht, hfree => by
      obtain rfl := ht.bool_eq
      exact ⟨ht, rfl, fun _ _ => .pure (Value.bool b)⟩
  | .ident name, ty, f, f', parts, h, hid, ht, hfree => agreesOn_ident ht
  | .group e, ty, f, f', parts, h, hid, ht, hfree => by
      cases h with
      | group he =>
          have hinner := agrees_of_lowered he hid ht.of_group hfree
          exact ⟨ht, hfree, hinner.agrees⟩
  | .binary (.arith op) l r, ty, f, f', parts, h, hid, ht, hfree => by
      obtain ⟨rfl, htl, htr⟩ := ht.of_arith
      obtain ⟨hfl, hfr⟩ := Bool.and_eq_true_iff.mp hfree
      cases h with
      | arith hl hr =>
          have hright := agrees_of_lowered hr (hl.activeScope.trans hid) htr hfr
          exact (agrees_of_lowered hl hid htl hfl).arith hright
  | .binary (.order op) l r, ty, f, f', parts, h, hid, ht, hfree => by
      obtain ⟨rfl, htl, htr⟩ := ht.of_order
      obtain ⟨hfl, hfr⟩ := Bool.and_eq_true_iff.mp hfree
      cases h with
      | order hl hr =>
          have hright := agrees_of_lowered hr (hl.activeScope.trans hid) htr hfr
          exact (agrees_of_lowered hl hid htl hfl).order hright
  | .binary (.logic op) l r, ty, f, f', parts, h, hid, ht, hfree => by
      obtain ⟨rfl, htl, htr⟩ := ht.of_logic
      obtain ⟨hfl, hfr⟩ := Bool.and_eq_true_iff.mp hfree
      cases h with
      | logic hl hr =>
          have hright := agrees_of_lowered hr (hl.activeScope.trans hid) htr hfr
          exact (agrees_of_lowered hl hid htl hfl).logic hright
  | .binary .equal l r, ty, f, f', parts, h, hid, ht, hfree => by
      obtain ⟨rfl, operand, htl, htr⟩ := ht.of_equal
      obtain ⟨hfl, hfr⟩ := Bool.and_eq_true_iff.mp hfree
      cases h with
      | @equalValues _ _ _ _ _ _ _ found m hfound hm hl hr =>
          rw [H.oracle_eq, hid] at hfound
          obtain rfl := htl.eq_of_typeOf hfound (Ty.ne_void_of_unboxer? hm)
          have hright := agrees_of_lowered hr (hl.activeScope.trans hid) htr hfr
          exact (agrees_of_lowered hl hid htl hfl).equalValues hfound hm hright
      | @equalReferences _ _ _ _ _ _ _ found hfound href hl hr =>
          rw [H.oracle_eq, hid] at hfound
          obtain rfl := htl.eq_of_typeOf hfound (Ty.ne_of_reference href).1
          have hright := agrees_of_lowered hr (hl.activeScope.trans hid) htr hfr
          exact (agrees_of_lowered hl hid htl hfl).equalReferences hfound href hright
  | .unary .not e, ty, f, f', parts, h, hid, ht, hfree => by
      obtain ⟨rfl, hte⟩ := ht.of_not
      cases h with
      | not he => exact (agrees_of_lowered he hid hte hfree).not
  | .unary .neg e, ty, f, f', parts, h, hid, ht, hfree => by
      obtain ⟨rfl, hte⟩ := ht.of_neg
      cases h with
      | neg he => exact (agrees_of_lowered he hid hte hfree).neg
  | .index l r, ty, f, f', parts, h, hid, ht, hfree => by
      obtain ⟨htl, htr⟩ := ht.of_index
      obtain ⟨hfl, hfr⟩ := Bool.and_eq_true_iff.mp hfree
      cases h with
      | @index _ _ _ _ _ _ _ found className hfound hname hl hr =>
          rw [H.oracle_eq, hid] at hfound
          obtain rfl := ht.eq_of_typeOf hfound (Ty.ne_void_of_className? hname)
          have hright := agrees_of_lowered hr (hl.activeScope.trans hid) htr hfr
          exact (agrees_of_lowered hl hid htl hfl).index hfound hright
  | .append l r, ty, f, f', parts, h, hid, ht, hfree => by
      obtain ⟨element, rfl, hne, htl, htr⟩ := ht.of_append
      obtain ⟨hfl, hfr⟩ := Bool.and_eq_true_iff.mp hfree
      cases h with
      | append hl hr =>
          have hright := agrees_of_lowered hr (hl.activeScope.trans hid) htr hfr
          exact (agrees_of_lowered hl hid htl hfl).append hne hright
  | .size l, ty, f, f', parts, h, hid, ht, hfree => by
      obtain ⟨rfl, element, htl⟩ := ht.of_size
      cases h with
      | size hl => exact (agrees_of_lowered hl hid htl hfree).listSize

-- ============================================================================
-- Code of expressions
-- ============================================================================

/-- The code of well-typed expressions without calls computes their values. -/
theorem computes_of_lowered {H : Host} {e : Expr} {ty : Ty} {f f' : Frame}
    {parts : List Fragment} (h : ExprLowered H.setting (.one e) f parts f')
    (hid : f.activeScope = H.id) (hext : f'.slots.Extends H.slots)
    (ht : HasType H.setting.symbols H.id e ty) (hfree : e.callFree = true) :
    H.Computes e ty parts := by
  refine ⟨ht, hfree, fun {types env place stack slots} hready hcode => ?_⟩
  have hcomputes := CallHost.computes_of_lowered (H := H.callHost hready.holds) h hid hext ht
  have hfollows : (H.callHost hready.holds).Follows place stack env.world (fun _ => []) _ _
      (e.value (H.activation env.vars) env.world) := hcomputes.follows hcode
  have hagrees := (agrees_of_lowered h hid ht hfree).agrees hready.typed rfl
  have hsound := ht.eval_sound H.functions_iff hfree hready.typed
  rw [hagrees] at hfollows
  cases heval : e.eval H.functions env with
  | mk result env' =>
      rw [heval] at hfollows hsound
      cases result with
      | error trap => exact hfollows.runs H.without_calls
      | ok v =>
          obtain ⟨arrays, -, hleads⟩ := hfollows
          obtain ⟨types', -, -, hv⟩ := hsound
          have hne : ty ≠ .void := by
            rintro rfl
            cases hv
          simp only [Ty.leave_of_ne hne] at hleads
          exact hleads.reaches H.without_calls

end Host

end JasminGen
