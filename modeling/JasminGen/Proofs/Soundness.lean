/-
  JasminGen.Proofs.Soundness

  Well-typed programs without calls are interpreted without illegal operations. The
  store has types of its own, one for each object, which are kept when objects are added
  and when lists grow.

  Main definitions: `WellTyped`, `Stmt.callFree`, `Env.Typed`, `Sound`. Main results:
  `HasType.eval_sound`, `WellTyped.exec_sound`.
-/

import JasminGen.Proofs.Interp
import JasminGen.Proofs.Transcript
import JasminGen.Proofs.Typing

namespace JasminGen

-- ============================================================================
-- Well-typed statements without calls
-- ============================================================================

/-- `WellTyped table id s`: in the scope `id`, the expressions of `s` have the types that
    their places ask for. A variable has one type in its scope, wherever it is declared. -/
inductive WellTyped (table : SymbolTable) (id : ScopeId) : Stmt → Prop where
  | block {body : List Stmt} : (∀ s ∈ body, WellTyped table id s) →
      WellTyped table id (.block body)
  | declare {name : String} {ty : Ty} : table.lookupVariable id name = .ok (some ty) →
      WellTyped table id (.declare name ty none)
  | declareValue {name : String} {ty : Ty} {e : Expr} :
      table.lookupVariable id name = .ok (some ty) → HasType table id e ty →
      WellTyped table id (.declare name ty (some e))
  | assign {name : String} {ty : Ty} {e : Expr} :
      table.lookupVariable id name = .ok (some ty) → HasType table id e ty →
      WellTyped table id (.assign (.ident name) e)
  | cond {test : Expr} {positive : Stmt} {negative : Option Stmt} :
      HasType table id test .bool → WellTyped table id positive →
      (∀ s ∈ negative, WellTyped table id s) →
      WellTyped table id (.cond test positive negative)
  | loop {count : Expr} {body : Stmt} : HasType table id count .int → WellTyped table id body →
      WellTyped table id (.loop count body)
  | call {target : Expr} {args : List Expr} {ty : Ty} : HasType table id (.call target args) ty →
      WellTyped table id (.call target args)
  | ret : WellTyped table id (.ret none)
  | retValue {e : Expr} {ty : Ty} : HasType table id e ty → WellTyped table id (.ret (some e))
  | display {e : Expr} {ty : Ty} : HasType table id e ty → ty = .int ∨ ty = .bool →
      WellTyped table id (.display e)
  | append {l r : Expr} {ty : Ty} : HasType table id (.append l r) ty →
      WellTyped table id (.append l r)
  | size {e : Expr} : HasType table id (.size e) .int → WellTyped table id (.size e)

/-- Whether an expression has no calls in it. -/
def Expr.callFree : Expr → Bool
  | .int _ | .bool _ | .ident _ => true
  | .group e | .unary _ e | .size e => e.callFree
  | .binary _ l r | .index l r | .append l r => l.callFree && r.callFree
  | .call _ _ | .field _ _ => false

/-- The types of variables in programs without calls. -/
def Ty.isPlain : Ty → Bool
  | .int | .bool | .list _ => true
  | _ => false

mutual

/-- Whether a statement has no calls in it, does not return a value, and declares nothing
    but integers, truth values and lists. -/
def Stmt.callFree : Stmt → Bool
  | .block body => Stmt.allCallFree body
  | .declare _ ty none => ty.isPlain
  | .declare _ ty (some e) => ty.isPlain && e.callFree
  | .assign (.ident _) e => e.callFree
  | .cond test positive none => test.callFree && positive.callFree
  | .cond test positive (some negative) =>
    test.callFree && positive.callFree && negative.callFree
  | .loop count body => count.callFree && body.callFree
  | .display e | .size e => e.callFree
  | .append l r => l.callFree && r.callFree
  | .ret none => true
  | .assign _ _ | .call _ _ | .ret (some _) => false

def Stmt.allCallFree : List Stmt → Bool
  | [] => true
  | s :: rest => s.callFree && Stmt.allCallFree rest

end

-- ============================================================================
-- Types of values and stores
-- ============================================================================

/-- The value has the type, if `types` are the types of the objects in the store. -/
inductive Value.Typed (types : List Ty) : Value → Ty → Prop where
  | int {n : Int32} : Typed types (.int n) .int
  | bool {b : Bool} : Typed types (.bool b) .bool
  | list {address : Nat} {element : Ty} :
      types[address]? = some (.list element) → Typed types (.ref address) (.list element)
  | pointer {address : Nat} {params : List Ty} {result : Ty} :
      types[address]? = some (.fptr params result) →
      Typed types (.ref address) (.fptr params result)

/-- The object has the type. A function pointer has the type of the function of its name. -/
inductive Object.Typed (table : SymbolTable) (types : List Ty) : Object → Ty → Prop where
  | list {elements : List Value} {element : Ty} : (∀ v ∈ elements, v.Typed types element) →
      Typed table types (.list elements) (.list element)
  | function {name : String} {signature : Signature} : table.function? name = some signature →
      Typed table types (.function name) signature.pointerTy

/-- The objects of a store have the types `types`, and the variables have those of the
    scope `id`. -/
structure Env.Typed (table : SymbolTable) (id : ScopeId) (types : List Ty) (env : Env) :
    Prop where
  length : env.store.length = types.length
  store : ∀ (address : Nat) (o : Object) (ty : Ty), env.store[address]? = some o →
    types[address]? = some ty → o.Typed table types ty
  vars : ∀ name v, env.vars name = some v →
    ∃ ty, table.lookupVariable id name = .ok (some ty) ∧ v.Typed types ty

section Typed

variable {table : SymbolTable} {id : ScopeId} {types types' : List Ty} {ty : Ty} {env : Env}

theorem Value.Typed.mono {v : Value} (h : v.Typed types ty) (hle : types <+: types') :
    v.Typed types' ty := by
  cases h with
  | int => exact .int
  | bool => exact .bool
  | list ha => exact .list (getElem?_of_isPrefix hle ha)
  | pointer ha => exact .pointer (getElem?_of_isPrefix hle ha)

theorem Value.Typed.int_inv {v : Value} (h : v.Typed types .int) : ∃ n, v = .int n := by
  cases h with
  | int => exact ⟨_, rfl⟩

theorem Value.Typed.bool_inv {v : Value} (h : v.Typed types .bool) : ∃ b, v = .bool b := by
  cases h with
  | bool => exact ⟨_, rfl⟩

theorem Value.Typed.list_inv {v : Value} {element : Ty} (h : v.Typed types (.list element)) :
    ∃ address, v = .ref address ∧ types[address]? = some (.list element) := by
  cases h with
  | list ha => exact ⟨_, rfl, ha⟩

theorem Object.Typed.mono {o : Object} (h : o.Typed table types ty) (hle : types <+: types') :
    o.Typed table types' ty := by
  cases h with
  | list hs => exact .list fun v hv => (hs v hv).mono hle
  | function hf => exact .function hf

theorem Env.typed_initial : Env.initial.Typed table id [] :=
  ⟨rfl, by simp [Env.initial], by simp [Env.initial]⟩

/-- A reference to a list leads to a list in the store, with elements of its type. -/
theorem Env.Typed.list_at {address : Nat} {element : Ty} (h : env.Typed table id types)
    (ha : types[address]? = some (.list element)) :
    ∃ elements, env.store[address]? = some (.list elements) ∧
      ∀ v ∈ elements, v.Typed types element := by
  have hlt : address < env.store.length := h.length ▸ (List.getElem?_eq_some_iff.mp ha).1
  have ho := List.getElem?_eq_getElem hlt
  have hty := h.store address _ _ ho ha
  cases hobject : env.store[address] with
  | list elements =>
      rw [hobject] at ho hty
      cases hty with
      | list hs => exact ⟨elements, ho, hs⟩
  | function name =>
      rw [hobject] at hty
      cases hty

/-- A new object is typed with all others. -/
theorem Env.Typed.push {o : Object} (h : env.Typed table id types) (ho : o.Typed table types ty) :
    Env.Typed table id (types ++ [ty]) { env with store := env.store ++ [o] } := by
  have hle : types <+: types ++ [ty] := List.prefix_append types [ty]
  refine ⟨by simp [h.length], ?_, ?_⟩
  · intro address object found hobject hfound
    by_cases hlt : address < env.store.length
    · rw [List.getElem?_append_left hlt] at hobject
      rw [List.getElem?_append_left (h.length ▸ hlt)] at hfound
      exact (h.store address object found hobject hfound).mono hle
    · have hend : address = env.store.length := by
        have := (List.getElem?_eq_some_iff.mp hobject).1
        simp at this
        omega
      subst hend
      rw [List.getElem?_concat_length] at hobject
      rw [h.length, List.getElem?_concat_length] at hfound
      obtain rfl := Option.some.inj hobject
      obtain rfl := Option.some.inj hfound
      exact ho.mono hle
  · intro name v hv
    obtain ⟨found, hfound, hty⟩ := h.vars name v hv
    exact ⟨found, hfound, hty.mono hle⟩

/-- A list may get elements of its type. -/
theorem Env.Typed.set {address : Nat} {elements : List Value} {element : Ty}
    (h : env.Typed table id types) (ha : types[address]? = some (.list element))
    (hs : ∀ v ∈ elements, v.Typed types element) :
    Env.Typed table id types { env with store := env.store.set address (.list elements) } := by
  refine ⟨by simp [h.length], ?_, h.vars⟩
  intro other object found hobject hfound
  by_cases heq : address = other
  · subst heq
    rw [ha] at hfound
    obtain rfl := Option.some.inj hfound
    have hlt : address < env.store.length := h.length ▸ (List.getElem?_eq_some_iff.mp ha).1
    rw [List.getElem?_set_self hlt] at hobject
    obtain rfl := Option.some.inj hobject
    exact .list hs
  · rw [List.getElem?_set_ne heq] at hobject
    exact h.store other object found hobject hfound

/-- A variable may get a value of its type. -/
theorem Env.Typed.assign {name : String} {v : Value} (h : env.Typed table id types)
    (hname : table.lookupVariable id name = .ok (some ty)) (hv : v.Typed types ty) :
    Env.Typed table id types
      { env with vars := fun x => if x = name then some v else env.vars x } := by
  refine ⟨h.length, h.store, ?_⟩
  intro other w hw
  dsimp only at hw
  split at hw
  · next heq =>
      subst heq
      exact ⟨ty, hname, Option.some.inj hw ▸ hv⟩
  · exact h.vars other w hw

end Typed

-- ============================================================================
-- Expressions
-- ============================================================================

/-- A result of the interpreter: a value that `post` holds of, in an environment whose
    objects have the types `types` and those of new objects, or a trap that is not an
    illegal operation. -/
def Sound (table : SymbolTable) (id : ScopeId) (types : List Ty) {α : Type}
    (post : List Ty → α → Prop) : Except Trap α × Env → Prop
  | (.ok a, env) => ∃ types', types <+: types' ∧ env.Typed table id types' ∧ post types' a
  | (.error trap, _) => trap ≠ .illegal

section Sound

variable {table : SymbolTable} {id : ScopeId} {types types' : List Ty} {α β : Type}
  {p : List Ty → α → Prop} {q : List Ty → β → Prop} {env : Env}

theorem Sound.pure {a : α} (henv : env.Typed table id types) (h : p types a) :
    Sound table id types p ((Pure.pure a : Run α) env) :=
  ⟨types, List.prefix_refl types, henv, h⟩

theorem Sound.mono {r : Except Trap α × Env} (h : Sound table id types' p r)
    (hle : types <+: types') : Sound table id types p r := by
  obtain ⟨result, env'⟩ := r
  cases result with
  | error trap => exact h
  | ok a =>
      obtain ⟨types₁, hle₁, henv, hp⟩ := h
      exact ⟨types₁, hle.trans hle₁, henv, hp⟩

theorem Sound.bind {x : Run α} {k : α → Run β} (hx : Sound table id types p (x env))
    (hk : ∀ types' a env', types <+: types' → env'.Typed table id types' → p types' a →
      Sound table id types' q (k a env')) :
    Sound table id types q ((x >>= k) env) := by
  rcases Attempt.bind_cases x k env with ⟨trap, env', hr, hbind⟩ | ⟨a, env', hr, hbind⟩
  · rw [hr] at hx
    rw [hbind]
    exact hx
  · rw [hr] at hx
    obtain ⟨types', hle, henv, hp⟩ := hx
    rw [hbind]
    exact (hk types' a env' hle henv hp).mono hle

/-- The function is called on with the result of an operand. -/
theorem Sound.int {x : Run Value} {k : Int32 → Run β}
    (hx : Sound table id types (fun types' v => v.Typed types' .int) (x env))
    (hk : ∀ types' n env', types <+: types' → env'.Typed table id types' →
      Sound table id types' q (k n env')) :
    Sound table id types q ((do let n ← Run.asInt (← x); k n) env) := by
  refine hx.bind fun types' v env' hle henv hv => ?_
  obtain ⟨n, rfl⟩ := hv.int_inv
  exact hk types' n env' hle henv

theorem Sound.bool {x : Run Value} {k : Bool → Run β}
    (hx : Sound table id types (fun types' v => v.Typed types' .bool) (x env))
    (hk : ∀ types' b env', types <+: types' → env'.Typed table id types' →
      Sound table id types' q (k b env')) :
    Sound table id types q ((do let b ← Run.asBool (← x); k b) env) := by
  refine hx.bind fun types' v env' hle henv hv => ?_
  obtain ⟨b, rfl⟩ := hv.bool_inv
  exact hk types' b env' hle henv

theorem Sound.arith (henv : env.Typed table id types) (op : ArithOp) (a b : Int32) :
    Sound table id types (fun _ _ => True) (op.apply a b env) := by
  cases op with
  | div =>
      rw [ArithOp.apply]
      split
      · exact Trap.noConfusion
      · exact .pure henv trivial
  | _ => exact .pure henv trivial

theorem Sound.element {elements : List Value} {ty : Ty} (henv : env.Typed table id types)
    (h : ∀ v ∈ elements, v.Typed types ty) (n : Int32) :
    Sound table id types (fun types' v => v.Typed types' ty) (Run.element elements n env) := by
  rw [Run.element]
  split
  · exact Trap.noConfusion
  · cases hv : elements[n.toInt.toNat]? with
    | none => exact Trap.noConfusion
    | some v => exact .pure henv (h v (List.mem_of_getElem? hv))

theorem Sound.function {name : String} {signature : Signature} (henv : env.Typed table id types)
    (hf : table.function? name = some signature) :
    Sound table id types (fun types' v => v.Typed types' signature.pointerTy)
      (Run.allocate (.function name) env) := by
  refine ⟨types ++ [signature.pointerTy], List.prefix_append _ _, henv.push (.function hf),
    .pointer ?_⟩
  rw [henv.length, List.getElem?_concat_length]
  rfl

theorem Sound.lookup {name : String} {ty : Ty} (henv : env.Typed table id types)
    (hname : table.lookupVariable id name = .ok (some ty)) :
    Sound table id types (fun types' v => v.Typed types' ty) (Run.lookup name env) := by
  cases hv : env.vars name with
  | none =>
      rw [Run.lookup_none hv]
      exact Trap.noConfusion
  | some v =>
      obtain ⟨found, hfound, hty⟩ := henv.vars name v hv
      rw [hname] at hfound
      obtain rfl := Option.some.inj (Except.ok.inj hfound)
      rw [Run.lookup_some hv]
      exact .pure henv hty

/-- The value of a well-typed expression has the type of the expression. -/
theorem HasType.eval_sound {functions : List String}
    (hfunctions : ∀ name, name ∈ functions ↔ (table.function? name).isSome) :
    ∀ {e : Expr} {ty : Ty} {types : List Ty} {env : Env}, HasType table id e ty →
      e.callFree = true → env.Typed table id types →
      Sound table id types (fun types' v => v.Typed types' ty) (e.eval functions env)
  | .int n, ty, types, env, ht, _, henv => by
      obtain rfl := ht.int_eq
      exact .pure henv .int
  | .bool b, ty, types, env, ht, _, henv => by
      obtain rfl := ht.bool_eq
      exact .pure henv .bool
  | .ident name, ty, types, env, ht, _, henv => by
      obtain ⟨hty, -⟩ := ht.of_ident
      have hlookup := SymbolTable.lookupFunction_eq hty
      rw [Expr.eval]
      split
      · next hmem =>
          obtain ⟨signature, hsignature⟩ := Option.isSome_iff_exists.mp ((hfunctions name).mp hmem)
          rw [hsignature] at hlookup
          obtain rfl := SymbolTable.typeOfName_function hlookup hty
          exact .function henv hsignature
      · next hmem =>
          have hnone : table.function? name = none := by
            rw [hfunctions name] at hmem
            simpa using hmem
          rw [hnone] at hlookup
          exact .lookup henv (SymbolTable.typeOfName_variable hlookup hty)
  | .group e, ty, types, env, ht, hfree, henv =>
      eval_sound hfunctions (e := e) ht.of_group hfree henv
  | .binary (.arith op) l r, ty, types, env, ht, hfree, henv => by
      obtain ⟨rfl, hl, hr⟩ := ht.of_arith
      obtain ⟨hfl, hfr⟩ := Bool.and_eq_true_iff.mp hfree
      rw [Expr.eval]
      refine (eval_sound hfunctions hl hfl henv).int fun types₁ a env₁ _ henv₁ => ?_
      refine (eval_sound hfunctions hr hfr henv₁).int fun types₂ b env₂ _ henv₂ => ?_
      refine (Sound.arith henv₂ op a b).bind fun types₃ n env₃ _ henv₃ _ => ?_
      exact .pure henv₃ .int
  | .binary (.order op) l r, ty, types, env, ht, hfree, henv => by
      obtain ⟨rfl, hl, hr⟩ := ht.of_order
      obtain ⟨hfl, hfr⟩ := Bool.and_eq_true_iff.mp hfree
      rw [Expr.eval]
      refine (eval_sound hfunctions hl hfl henv).int fun types₁ a env₁ _ henv₁ => ?_
      refine (eval_sound hfunctions hr hfr henv₁).int fun types₂ b env₂ _ henv₂ => ?_
      exact .pure henv₂ .bool
  | .binary (.logic op) l r, ty, types, env, ht, hfree, henv => by
      obtain ⟨rfl, hl, hr⟩ := ht.of_logic
      obtain ⟨hfl, hfr⟩ := Bool.and_eq_true_iff.mp hfree
      rw [Expr.eval]
      refine (eval_sound hfunctions hl hfl henv).bool fun types₁ a env₁ _ henv₁ => ?_
      split
      · exact .pure henv₁ .bool
      · refine (eval_sound hfunctions hr hfr henv₁).bool fun types₂ b env₂ _ henv₂ => ?_
        exact .pure henv₂ .bool
  | .binary .equal l r, ty, types, env, ht, hfree, henv => by
      obtain ⟨rfl, operand, hl, hr⟩ := ht.of_equal
      obtain ⟨hfl, hfr⟩ := Bool.and_eq_true_iff.mp hfree
      rw [Expr.eval]
      refine (eval_sound hfunctions hl hfl henv).bind fun types₁ a env₁ _ henv₁ _ => ?_
      refine (eval_sound hfunctions hr hfr henv₁).bind fun types₂ b env₂ _ henv₂ _ => ?_
      exact .pure henv₂ .bool
  | .unary .not e, ty, types, env, ht, hfree, henv => by
      obtain ⟨rfl, he⟩ := ht.of_not
      rw [Expr.eval]
      exact (eval_sound hfunctions he hfree henv).bool fun _ _ _ _ henv₁ => .pure henv₁ .bool
  | .unary .neg e, ty, types, env, ht, hfree, henv => by
      obtain ⟨rfl, he⟩ := ht.of_neg
      rw [Expr.eval]
      exact (eval_sound hfunctions he hfree henv).int fun _ _ _ _ henv₁ => .pure henv₁ .int
  | .index l r, ty, types, env, ht, hfree, henv => by
      obtain ⟨hl, hr⟩ := ht.of_index
      obtain ⟨hfl, hfr⟩ := Bool.and_eq_true_iff.mp hfree
      rw [Expr.eval]
      refine (eval_sound hfunctions hl hfl henv).bind fun types₁ list env₁ _ henv₁ hlist => ?_
      refine (eval_sound hfunctions hr hfr henv₁).int fun types₂ n env₂ hle henv₂ => ?_
      obtain ⟨address, rfl, ha⟩ := (hlist.mono hle).list_inv
      obtain ⟨elements, helements, htyped⟩ := henv₂.list_at ha
      rw [Attempt.bind_ok (Run.asList_eq helements)]
      exact .element henv₂ htyped n
  | .append l r, ty, types, env, ht, hfree, henv => by
      obtain ⟨element, rfl, _, hl, hr⟩ := ht.of_append
      obtain ⟨hfl, hfr⟩ := Bool.and_eq_true_iff.mp hfree
      rw [Expr.eval]
      refine (eval_sound hfunctions hl hfl henv).bind fun types₁ list env₁ _ henv₁ hlist => ?_
      refine (eval_sound hfunctions hr hfr henv₁).bind fun types₂ v env₂ hle henv₂ hv => ?_
      obtain ⟨address, rfl, ha⟩ := (hlist.mono hle).list_inv
      obtain ⟨elements, helements, htyped⟩ := henv₂.list_at ha
      rw [Attempt.bind_ok (Run.append_eq helements)]
      refine .pure (henv₂.set ha ?_) (.list ha)
      intro w hw
      rcases List.mem_append.mp hw with hw | hw
      · exact htyped w hw
      · rw [List.mem_singleton.mp hw]
        exact hv
  | .size l, ty, types, env, ht, hfree, henv => by
      obtain ⟨rfl, element, hl⟩ := ht.of_size
      rw [Expr.eval]
      refine (eval_sound hfunctions hl hfree henv).bind fun types₁ list env₁ _ henv₁ hlist => ?_
      obtain ⟨address, rfl, ha⟩ := hlist.list_inv
      obtain ⟨elements, helements, -⟩ := henv₁.list_at ha
      rw [Attempt.bind_ok (Run.asList_eq helements)]
      exact .pure henv₁ .int

-- ============================================================================
-- Statements
-- ============================================================================

/-- A statement that can be executed in every typed environment. -/
def SoundRun (table : SymbolTable) (id : ScopeId) (x : Run Completion) : Prop :=
  ∀ (types : List Ty) (env : Env), env.Typed table id types →
    Sound table id types (fun _ _ => True) (x env)

theorem SoundRun.andThen {x y : Run Completion} (hx : SoundRun table id x)
    (hy : SoundRun table id y) : SoundRun table id (x.andThen y) := by
  intro types env henv
  refine (hx types env henv).bind fun types' completion env' _ henv' _ => ?_
  cases completion with
  | next => exact hy types' env' henv'
  | returned => exact .pure henv' trivial

theorem SoundRun.iterate {x : Run Completion} (hx : SoundRun table id x) (n : Nat) :
    SoundRun table id (Run.iterate x n) := by
  induction n with
  | zero => exact fun _ _ henv => .pure henv trivial
  | succ n ih => exact hx.andThen ih

/-- A variable gets a value of its type. -/
theorem Sound.assign {x : Run Value} {name : String} {ty : Ty}
    (hname : table.lookupVariable id name = .ok (some ty))
    (hx : Sound table id types (fun types' v => v.Typed types' ty) (x env)) :
    Sound table id types (fun _ _ => True)
      ((do Run.assign name (← x); Pure.pure .next : Run Completion) env) :=
  hx.bind fun _ _ _ _ henv hv => Sound.pure (henv.assign hname hv) trivial

theorem Sound.zero {ty : Ty} (hplain : ty.isPlain = true) (henv : env.Typed table id types) :
    Sound table id types (fun types' v => v.Typed types' ty) (ty.zero env) := by
  cases ty with
  | int => exact .pure henv .int
  | bool => exact .pure henv .bool
  | list element =>
      refine ⟨types ++ [.list element], List.prefix_append _ _, henv.push (.list (by simp)),
        .list ?_⟩
      rw [henv.length, List.getElem?_concat_length]
  | _ => cases hplain

mutual

/-- A well-typed statement is executed without illegal operations. -/
theorem WellTyped.exec_sound {functions : List String}
    (hfunctions : ∀ name, name ∈ functions ↔ (table.function? name).isSome) :
    ∀ {s : Stmt}, WellTyped table id s → s.callFree = true →
      SoundRun table id (s.exec functions)
  | .block body, ht, hfree => by
      cases ht with
      | block hs => exact execAll_sound hfunctions hs hfree
  | .declare name ty none, ht, hfree => by
      cases ht with
      | declare hname => exact fun _ _ henv => .assign hname (.zero hfree henv)
  | .declare name ty (some e), ht, hfree => by
      cases ht with
      | declareValue hname he =>
          intro types env henv
          exact .assign hname (he.eval_sound hfunctions (Bool.and_eq_true_iff.mp hfree).2 henv)
  | .assign (.ident name) e, ht, hfree => by
      cases ht with
      | assign hname he =>
          exact fun _ _ henv => .assign hname (he.eval_sound hfunctions hfree henv)
  | .cond test positive none, ht, hfree => by
      cases ht with
      | cond htest hp _ =>
          obtain ⟨hft, hfp⟩ := Bool.and_eq_true_iff.mp hfree
          intro types env henv
          rw [Stmt.exec]
          refine (htest.eval_sound hfunctions hft henv).bool fun types' b env' _ henv' => ?_
          split
          · exact exec_sound hfunctions hp hfp types' env' henv'
          · exact .pure henv' trivial
  | .cond test positive (some negative), ht, hfree => by
      cases ht with
      | cond htest hp hn =>
          obtain ⟨hftp, hfn⟩ := Bool.and_eq_true_iff.mp hfree
          obtain ⟨hft, hfp⟩ := Bool.and_eq_true_iff.mp hftp
          intro types env henv
          rw [Stmt.exec]
          refine (htest.eval_sound hfunctions hft henv).bool fun types' b env' _ henv' => ?_
          split
          · exact exec_sound hfunctions hp hfp types' env' henv'
          · exact exec_sound hfunctions (hn negative rfl) hfn types' env' henv'
  | .loop count body, ht, hfree => by
      cases ht with
      | loop hcount hbody =>
          obtain ⟨hfc, hfb⟩ := Bool.and_eq_true_iff.mp hfree
          intro types env henv
          rw [Stmt.exec]
          refine (hcount.eval_sound hfunctions hfc henv).int fun types' n env' _ henv' => ?_
          exact SoundRun.iterate (exec_sound hfunctions hbody hfb) _ types' env' henv'
  | .ret none, _, _ => fun _ _ henv => .pure henv trivial
  | .display e, ht, hfree => by
      cases ht with
      | @display _ ty he hty =>
          intro types env henv
          rw [Stmt.exec]
          refine (he.eval_sound hfunctions hfree henv).bind fun types' v env' _ henv' hv => ?_
          have hprinted : ∀ p, Env.Typed table id types'
              { env' with printed := env'.printed ++ [p] } :=
            fun p => ⟨henv'.length, henv'.store, henv'.vars⟩
          rcases hty with rfl | rfl
          · obtain ⟨n, rfl⟩ := hv.int_inv
            exact Sound.pure (hprinted (.int n)) trivial
          · obtain ⟨b, rfl⟩ := hv.bool_inv
            exact Sound.pure (hprinted (.bool b)) trivial
  | .append l r, ht, hfree => by
      cases ht with
      | append he =>
          intro types env henv
          exact (he.eval_sound hfunctions hfree henv).bind fun _ _ _ _ henv' _ =>
            .pure henv' trivial
  | .size e, ht, hfree => by
      cases ht with
      | size he =>
          intro types env henv
          exact (he.eval_sound hfunctions hfree henv).bind fun _ _ _ _ henv' _ =>
            .pure henv' trivial

theorem WellTyped.execAll_sound {functions : List String}
    (hfunctions : ∀ name, name ∈ functions ↔ (table.function? name).isSome) :
    ∀ {ss : List Stmt}, (∀ s ∈ ss, WellTyped table id s) → Stmt.allCallFree ss = true →
      SoundRun table id (Stmt.execAll functions ss)
  | [], _, _ => fun _ _ henv => .pure henv trivial
  | s :: rest, ht, hfree => by
      obtain ⟨hfs, hfrest⟩ := Bool.and_eq_true_iff.mp hfree
      rw [Stmt.execAll]
      exact SoundRun.andThen (exec_sound hfunctions (ht s List.mem_cons_self) hfs)
        (execAll_sound hfunctions (fun x hx => ht x (List.mem_cons_of_mem _ hx)) hfrest)

end

end Sound

end JasminGen
