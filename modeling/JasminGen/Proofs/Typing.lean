/-
  JasminGen.Proofs.Typing

  The typing rules of the source language. The symbol table reads types off expressions
  without checking operands; here operands, elements and arguments have the types that
  the language demands.

  The type of an expression is that of the value it leaves. An append leaves the list it
  has added to, whereas the symbol table says that it gives no value.

  Main definition: `HasType`. Main result: `HasType.typeOf_eq`, the symbol table gives
  every other expression its type.
-/

import JasminGen.Symbol.Typing

namespace JasminGen

mutual

/-- `HasType table id e ty`: in the scope `id`, the expression `e` leaves a value of the
    type `ty`. A call may leave nothing, and then has the type `void`. -/
inductive HasType (table : SymbolTable) (id : ScopeId) : Expr → Ty → Prop where
  | int {n : Int32} : HasType table id (.int n) .int
  | bool {b : Bool} : HasType table id (.bool b) .bool
  | ident {name : String} {ty : Ty} :
      table.typeOfName id name = .ok ty → ty ≠ .void → HasType table id (.ident name) ty
  | group {e : Expr} {ty : Ty} : HasType table id e ty → HasType table id (.group e) ty
  | arith {op : ArithOp} {l r : Expr} :
      HasType table id l .int → HasType table id r .int →
      HasType table id (.binary (.arith op) l r) .int
  | order {op : OrderOp} {l r : Expr} :
      HasType table id l .int → HasType table id r .int →
      HasType table id (.binary (.order op) l r) .bool
  | logic {op : LogicOp} {l r : Expr} :
      HasType table id l .bool → HasType table id r .bool →
      HasType table id (.binary (.logic op) l r) .bool
  | equal {l r : Expr} {ty : Ty} :
      HasType table id l ty → HasType table id r ty → ty ≠ .void →
      HasType table id (.binary .equal l r) .bool
  | not {e : Expr} : HasType table id e .bool → HasType table id (.unary .not e) .bool
  | neg {e : Expr} : HasType table id e .int → HasType table id (.unary .neg e) .int
  | index {l r : Expr} {element : Ty} :
      HasType table id l (.list element) → HasType table id r .int →
      HasType table id (.index l r) element
  | append {l r : Expr} {element : Ty} :
      HasType table id l (.list element) → HasType table id r element → element ≠ .void →
      HasType table id (.append l r) (.list element)
  | size {l : Expr} {element : Ty} :
      HasType table id l (.list element) → HasType table id (.size l) .int
  | call {target : Expr} {args : List Expr} {params : List Ty} {result : Ty} :
      HasType table id target (.fptr params result) → ArgsHaveTypes table id args params →
      HasType table id (.call target args) result

/-- Arguments have the types of the parameters, none of which is `void`. -/
inductive ArgsHaveTypes (table : SymbolTable) (id : ScopeId) : List Expr → List Ty → Prop where
  | nil : ArgsHaveTypes table id [] []
  | cons {arg : Expr} {args : List Expr} {ty : Ty} {params : List Ty} :
      HasType table id arg ty → ty ≠ .void → ArgsHaveTypes table id args params →
      ArgsHaveTypes table id (arg :: args) (ty :: params)

end

-- ============================================================================
-- Operands of a typed expression
-- ============================================================================

namespace HasType

variable {table : SymbolTable} {id : ScopeId} {e l r : Expr} {ty : Ty}

theorem int_eq {n : Int32} (h : HasType table id (.int n) ty) : ty = .int := by
  cases h
  rfl

theorem bool_eq {b : Bool} (h : HasType table id (.bool b) ty) : ty = .bool := by
  cases h
  rfl

theorem of_ident {name : String} (h : HasType table id (.ident name) ty) :
    table.typeOfName id name = .ok ty ∧ ty ≠ .void := by
  cases h with
  | ident hty hne => exact ⟨hty, hne⟩

theorem of_group (h : HasType table id (.group e) ty) : HasType table id e ty := by
  cases h with
  | group he => exact he

theorem of_arith {op : ArithOp} (h : HasType table id (.binary (.arith op) l r) ty) :
    ty = .int ∧ HasType table id l .int ∧ HasType table id r .int := by
  cases h with
  | arith hl hr => exact ⟨rfl, hl, hr⟩

theorem of_order {op : OrderOp} (h : HasType table id (.binary (.order op) l r) ty) :
    ty = .bool ∧ HasType table id l .int ∧ HasType table id r .int := by
  cases h with
  | order hl hr => exact ⟨rfl, hl, hr⟩

theorem of_logic {op : LogicOp} (h : HasType table id (.binary (.logic op) l r) ty) :
    ty = .bool ∧ HasType table id l .bool ∧ HasType table id r .bool := by
  cases h with
  | logic hl hr => exact ⟨rfl, hl, hr⟩

theorem of_equal (h : HasType table id (.binary .equal l r) ty) :
    ty = .bool ∧ ∃ operand, HasType table id l operand ∧ HasType table id r operand := by
  cases h with
  | equal hl hr _ => exact ⟨rfl, _, hl, hr⟩

theorem of_not (h : HasType table id (.unary .not e) ty) :
    ty = .bool ∧ HasType table id e .bool := by
  cases h with
  | not he => exact ⟨rfl, he⟩

theorem of_neg (h : HasType table id (.unary .neg e) ty) :
    ty = .int ∧ HasType table id e .int := by
  cases h with
  | neg he => exact ⟨rfl, he⟩

theorem of_index (h : HasType table id (.index l r) ty) :
    HasType table id l (.list ty) ∧ HasType table id r .int := by
  cases h with
  | index hl hr => exact ⟨hl, hr⟩

theorem of_append (h : HasType table id (.append l r) ty) :
    ∃ element, ty = .list element ∧ element ≠ .void ∧ HasType table id l (.list element) ∧
      HasType table id r element := by
  cases h with
  | append hl hr hne => exact ⟨_, rfl, hne, hl, hr⟩

theorem of_size (h : HasType table id (.size e) ty) :
    ty = .int ∧ ∃ element, HasType table id e (.list element) := by
  cases h with
  | size he => exact ⟨rfl, _, he⟩

theorem of_call {target : Expr} {args : List Expr} (h : HasType table id (.call target args) ty) :
    ∃ params, HasType table id target (.fptr params ty) ∧ ArgsHaveTypes table id args params := by
  cases h with
  | call ht ha => exact ⟨_, ht, ha⟩

end HasType

theorem ArgsHaveTypes.of_cons {table : SymbolTable} {id : ScopeId} {arg : Expr} {args : List Expr}
    {params : List Ty} (h : ArgsHaveTypes table id (arg :: args) params) :
    ∃ ty others, params = ty :: others ∧ HasType table id arg ty ∧ ty ≠ .void ∧
      ArgsHaveTypes table id args others := by
  cases h with
  | cons harg hne hargs => exact ⟨_, _, rfl, harg, hne, hargs⟩

-- ============================================================================
-- The types of the symbol table
-- ============================================================================

/-- Whether an expression is an append, possibly in groups. -/
def Expr.isAppend : Expr → Bool
  | .group e => e.isAppend
  | .append _ _ => true
  | _ => false

variable {table : SymbolTable} {id : ScopeId}

/-- A name with a type stands in a scope that exists. -/
theorem SymbolTable.lookupFunction_eq {name : String} {ty : Ty}
    (hty : table.typeOfName id name = .ok ty) :
    table.lookupFunction id name = .ok (table.function? name) := by
  cases hs : table.scope id with
  | ok s => rw [lookupFunction, hs]
  | error fault =>
      rw [typeOfName, lookupFunction, hs] at hty
      cases hty

theorem SymbolTable.typeOfName_function {name : String} {signature : Signature} {ty : Ty}
    (h : table.lookupFunction id name = .ok (some signature))
    (hty : table.typeOfName id name = .ok ty) : ty = signature.pointerTy := by
  rw [typeOfName, h] at hty
  exact (Except.ok.inj hty).symm

theorem SymbolTable.typeOfName_variable {name : String} {ty : Ty}
    (h : table.lookupFunction id name = .ok none) (hty : table.typeOfName id name = .ok ty) :
    table.lookupVariable id name = .ok (some ty) := by
  rw [typeOfName, h] at hty
  cases hv : table.lookupVariable id name with
  | error fault =>
      rw [hv] at hty
      cases hty
  | ok found =>
      rw [hv] at hty
      cases found with
      | none => cases hty
      | some found => rw [Except.ok.inj hty]

theorem SymbolTable.typeOf_append : ∀ {e : Expr}, e.isAppend = true → table.typeOf id e = .ok .void
  | .group e, h => typeOf_append (e := e) h
  | .append _ _, _ => rfl

theorem SymbolTable.not_isAppend {e : Expr} {ty : Ty} (h : table.typeOf id e = .ok ty)
    (hne : ty ≠ .void) : e.isAppend = false := by
  cases ha : e.isAppend with
  | false => rfl
  | true => exact absurd (Except.ok.inj (h.symm.trans (typeOf_append ha))) hne

theorem SymbolTable.typeOf_index {l r : Expr} {found : Ty}
    (h : table.typeOf id (.index l r) = .ok found) : table.typeOf id l = .ok (.list found) := by
  change (typeOf.go table id l).bind elementTy = .ok found at h
  change typeOf.go table id l = .ok (.list found)
  cases hl : typeOf.go table id l with
  | error failure =>
      rw [hl] at h
      cases h
  | ok listTy =>
      rw [hl] at h
      cases listTy with
      | list element => rw [Except.ok.inj h]
      | _ => cases h

theorem SymbolTable.typeOf_call {target : Expr} {args : List Expr} {found : Ty} :
    table.typeOf id (.call target args) = .ok found ↔
      ∃ params, table.typeOf id target = .ok (.fptr params found) := by
  change (typeOf.go table id target).bind resultTy = .ok found ↔
    ∃ params, typeOf.go table id target = .ok (.fptr params found)
  cases ht : typeOf.go table id target with
  | error failure => simp [Except.bind]
  | ok ty => cases ty <;> simp [Except.bind, resultTy]

/-- The symbol table gives an expression other than an append its type. -/
theorem HasType.typeOf_eq : ∀ {e : Expr} {ty found : Ty}, HasType table id e ty →
    table.typeOf id e = .ok found → e.isAppend = false → found = ty
  | .int _, _, _, .int, h, _ => (Except.ok.inj h).symm
  | .bool _, _, _, .bool, h, _ => (Except.ok.inj h).symm
  | .ident _, _, _, .ident hty _, h, _ => Except.ok.inj (h.symm.trans hty)
  | .group _, _, _, .group he, h, ha => typeOf_eq he h ha
  | .binary _ _ _, _, _, .arith _ _, h, _ => (Except.ok.inj h).symm
  | .binary _ _ _, _, _, .order _ _, h, _ => (Except.ok.inj h).symm
  | .binary _ _ _, _, _, .logic _ _, h, _ => (Except.ok.inj h).symm
  | .binary _ _ _, _, _, .equal _ _ _, h, _ => (Except.ok.inj h).symm
  | .unary _ _, _, _, .not _, h, _ => (Except.ok.inj h).symm
  | .unary _ _, _, _, .neg _, h, _ => (Except.ok.inj h).symm
  | .size _, _, _, .size _, h, _ => (Except.ok.inj h).symm
  | .index l _, ty, found, .index hl _, h, _ => by
      have hlist := SymbolTable.typeOf_index h
      have heq := typeOf_eq hl hlist (SymbolTable.not_isAppend hlist (by simp))
      exact Ty.list.inj heq
  | .call target _, _, _, .call ht _, h, _ => by
      obtain ⟨params, htarget⟩ := SymbolTable.typeOf_call.mp h
      have heq := typeOf_eq ht htarget (SymbolTable.not_isAppend htarget (by simp))
      exact (Ty.fptr.inj heq).2

/-- The type of an expression that has a value for the symbol table. -/
theorem HasType.eq_of_typeOf {e : Expr} {ty found : Ty} (h : HasType table id e ty)
    (hfound : table.typeOf id e = .ok found) (hne : found ≠ .void) : ty = found :=
  (h.typeOf_eq hfound (SymbolTable.not_isAppend hfound hne)).symm

end JasminGen
