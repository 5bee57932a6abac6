/-
  JasminGen.Proofs.Calls.Soundness

  Well-typed expressions are evaluated without illegal operations, if the variables hold
  values of their types and if the functions that are called respect their types. The
  value of an expression has the type of the expression.

  Which traps may come up is left open: an expression itself runs into no others than
  divisions by zero and positions that lists do not have, and reads of variables without a
  value if there are any.

  Main definitions: `Callee.Safe`, `CallHost.Ready`, `Safe`. Main results: `CallHost.safe_value`,
  `CallHost.safe_values`.
-/

import JasminGen.Proofs.Calls.Simulation
import JasminGen.Proofs.Calls.Types

namespace JasminGen

open Evaluation

-- ============================================================================
-- Functions that respect types
-- ============================================================================

/-- Whether an expression mentions no function, calls none and selects no field. -/
def Expr.functionFree (table : SymbolTable) : Expr → Bool
  | .int _ | .bool _ => true
  | .ident name => (table.function? name).isNone
  | .group e | .unary _ e | .size e => e.functionFree table
  | .binary _ l r | .index l r | .append l r => l.functionFree table && r.functionFree table
  | .call _ _ | .field _ _ => false

/-- Heaps grow, and objects that were there keep their types. -/
structure Grown (table : SymbolTable) (heap : List Cell) (types : Nat → Option Ty)
    (heap' : List Cell) (types' : Nat → Option Ty) : Prop where
  length_le : heap.length ≤ heap'.length
  kept : ∀ a, a < heap.length → types' a = types a
  typed : HeapTyped table types' heap'

/-- A function that is called with arguments of the types of its parameters gives a value
    of the type of its result, or runs into a trap that is allowed. -/
def Callee.Safe (table : SymbolTable) (allowed : Trap → Prop) (callee : Callee) : Prop :=
  ∀ (types : Nat → Option Ty) (params : List Ty) (result : Ty) (target : Word) (ws : List Word)
    (g : Globals), HeapTyped table types g.heap → target.Typed types (.fptr params result) →
    List.Forall₂ (Word.Typed types) ws params →
    match callee.invoke target ws g with
    | (.ok w, g') => ∃ types', Grown table g.heap types g'.heap types' ∧
        (result ≠ .void → w.Typed types' result)
    | (.error trap, _) => allowed trap

/-- Function pointers can be made, and called. -/
structure Activation.Safe (allowed : Trap → Prop) (A : Activation) : Prop where
  receiver : ∃ w, A.receiver = some w ∧ w.isPrimitive = false
  callee : A.callee.Safe A.symbols allowed

theorem Activation.safe_operands {allowed : Trap → Prop} {A : Activation} {l r : Expr}
    (h : (l.functionFree A.symbols && r.functionFree A.symbols) = false → A.Safe allowed) :
    (l.functionFree A.symbols = false → A.Safe allowed) ∧
      (r.functionFree A.symbols = false → A.Safe allowed) :=
  ⟨fun hl => h (Bool.and_eq_false_iff.mpr (.inl hl)),
    fun hr => h (Bool.and_eq_false_iff.mpr (.inr hr))⟩

theorem Grown.refl {table : SymbolTable} {heap : List Cell} {types : Nat → Option Ty}
    (h : HeapTyped table types heap) : Grown table heap types heap types :=
  ⟨Nat.le_refl _, fun _ _ => rfl, h⟩

theorem Grown.trans {table : SymbolTable} {heap heap₁ heap' : List Cell}
    {types types₁ types' : Nat → Option Ty} (h : Grown table heap types heap₁ types₁)
    (h' : Grown table heap₁ types₁ heap' types') : Grown table heap types heap' types' := by
  refine ⟨Nat.le_trans h.length_le h'.length_le, fun a hlt => ?_, h'.typed⟩
  rw [h'.kept a (Nat.lt_of_lt_of_le hlt h.length_le), h.kept a hlt]

-- ============================================================================
-- Safe results
-- ============================================================================

/-- A result of an evaluation in a heap whose objects have the types `types`: a value that
    `post` holds of, where old objects have kept their types, or a trap that is allowed. -/
def Safe (table : SymbolTable) (allowed : Trap → Prop) (heap : List Cell)
    (types : Nat → Option Ty) {α : Type} (post : (Nat → Option Ty) → α → Prop) :
    Except Trap α × World → Prop
  | (.ok a, W) => ∃ types', Grown table heap types W.heap types' ∧ post types' a
  | (.error trap, _) => allowed trap

/-- What is known of the value of an expression with the type. -/
def Ty.holds (ty : Ty) (types : Nat → Option Ty) (w : Word) : Prop :=
  ty ≠ .void → w.Typed types ty

namespace Safe

variable {table : SymbolTable} {allowed : Trap → Prop} {heap heap₁ : List Cell}
  {types types₁ : Nat → Option Ty} {α β : Type} {p : (Nat → Option Ty) → α → Prop}
  {q : (Nat → Option Ty) → β → Prop} {W : World}

theorem pure {a : α} (h : HeapTyped table types W.heap) (ha : p types a) :
    Safe table allowed W.heap types p ((Pure.pure a : Evaluation α) W) :=
  ⟨types, .refl h, ha⟩

theorem after {r : Except Trap α × World} (h : Grown table heap types heap₁ types₁)
    (hr : Safe table allowed heap₁ types₁ p r) : Safe table allowed heap types p r := by
  obtain ⟨result, W'⟩ := r
  cases result with
  | error trap => exact hr
  | ok a =>
      obtain ⟨types', hgrown, ha⟩ := hr
      exact ⟨types', h.trans hgrown, ha⟩

theorem bind {x : Evaluation α} {k : α → Evaluation β} (hx : Safe table allowed heap types p (x W))
    (hk : ∀ types' a W', Grown table heap types W'.heap types' → p types' a →
      Safe table allowed W'.heap types' q (k a W')) :
    Safe table allowed heap types q ((x >>= k) W) := by
  rcases Attempt.bind_cases x k W with ⟨trap, W', hr, hbind⟩ | ⟨a, W', hr, hbind⟩
  · rw [hr] at hx
    rw [hbind]
    exact hx
  · rw [hr] at hx
    obtain ⟨types', hgrown, ha⟩ := hx
    rw [hbind]
    exact .after hgrown (hk types' a W' hgrown ha)

/-- An operand that is an integer. -/
theorem int {x : Evaluation Word} {k : Int32 → Evaluation β}
    (hx : Safe table allowed heap types Ty.int.holds (x W))
    (hk : ∀ types' n W', Grown table heap types W'.heap types' →
      Safe table allowed W'.heap types' q (k n W')) :
    Safe table allowed heap types q ((do let n ← asInt (← x); k n) W) := by
  refine hx.bind fun types' w W' hgrown hw => ?_
  obtain ⟨n, rfl⟩ := hgrown.typed.int_inv (hw (by simp))
  exact hk types' n W' hgrown

/-- An operand that is a boolean. -/
theorem bool {x : Evaluation Word} {k : Bool → Evaluation β}
    (hx : Safe table allowed heap types Ty.bool.holds (x W))
    (hk : ∀ types' b W', Grown table heap types W'.heap types' →
      Safe table allowed W'.heap types' q (k b W')) :
    Safe table allowed heap types q ((do let b ← asBool (← x); k b) W) := by
  refine hx.bind fun types' w W' hgrown hw => ?_
  obtain ⟨b, rfl⟩ := hgrown.typed.bool_inv (hw (by simp))
  exact hk types' b W' hgrown

theorem compute (hdiv : allowed .divisionByZero) (op : ArithOp) (a b : Int32)
    (h : HeapTyped table types W.heap) :
    Safe table allowed W.heap types (fun _ _ => True) (op.compute a b W) := by
  cases op with
  | div =>
      rw [ArithOp.compute]
      split
      · exact hdiv
      · exact .pure h trivial
  | _ => exact .pure h trivial

theorem element {elements : List Word} {ty : Ty} (hindex : allowed .indexOutOfRange) (n : Int32)
    (h : HeapTyped table types W.heap) (hs : ∀ w ∈ elements, w.Typed types ty) :
    Safe table allowed W.heap types (fun types' w => w.Typed types' ty)
      (Evaluation.element elements n W) := by
  rw [Evaluation.element]
  split
  · exact hindex
  · cases hw : elements[n.toInt.toNat]? with
    | none => exact hindex
    | some w => exact .pure h (hs w (List.mem_of_getElem? hw))

/-- A value of the type stays what it is when it is narrowed. -/
theorem narrow {A : Activation} {e : Expr} {ty : Ty} {w : Word} (h : HeapTyped table types W.heap)
    (hty : A.symbols.typeOf A.id e = .ok ty) (hw : ty.holds types w) :
    Safe table allowed W.heap types ty.holds (A.narrow e w W) := by
  simp only [Activation.narrow, hty, Evaluation.narrow]
  cases hclass : ty.className? with
  | none => exact .pure h hw
  | some className =>
      have hne : ty ≠ .void := fun hvoid => by simp [Ty.className?_eq_none.mpr hvoid] at hclass
      simp only [if_pos (h.class_eq (hw hne) hclass)]
      exact .pure h hw

theorem invoke {callee : Callee} {params : List Ty} {result : Ty} {target : Word}
    {ws : List Word} (hsafe : callee.Safe table allowed) (h : HeapTyped table types W.heap)
    (htarget : target.Typed types (.fptr params result))
    (hws : List.Forall₂ (Word.Typed types) ws params) :
    Safe table allowed W.heap types result.holds (Evaluation.invoke callee target ws W) := by
  have hresult := hsafe types params result target ws W.toGlobals h htarget hws
  rw [Evaluation.invoke]
  cases hr : callee.invoke target ws W.toGlobals with
  | mk outcome g =>
      rw [hr] at hresult
      cases outcome with
      | error trap => exact hresult
      | ok w => exact hresult

/-- A new function pointer has the type of its function. -/
theorem pointer {A : Activation} {name : String} {signature : Signature}
    (hf : A.symbols.function? name = some signature) (hsafe : A.Safe allowed)
    (h : HeapTyped A.symbols types W.heap) :
    Safe A.symbols allowed W.heap types signature.pointerTy.holds ((do
      let address ← allocate (.raw fptrClass)
      construct address (.fptr (← Evaluation.read A.receiver) name)
      Pure.pure (.ref address) : Evaluation Word) W) := by
  obtain ⟨w, hreceiver, hboxed⟩ := hsafe.receiver
  have hread : Evaluation.read A.receiver { W with heap := W.heap ++ [.raw fptrClass] } =
      (.ok w, { W with heap := W.heap ++ [.raw fptrClass] }) := by
    rw [hreceiver, Evaluation.read, if_neg (by simp [hboxed])]
    rfl
  have hconstruct : (W.heap ++ [Cell.raw fptrClass]).set W.heap.length (.fptr w name) =
      W.heap ++ [.fptr w name] := by
    rw [List.set_append_right _ _ (Nat.le_refl _), Nat.sub_self]
    rfl
  have hcell : (Cell.fptr w name).Typed A.symbols types signature.pointerTy := .fptr hf
  obtain ⟨types', hkept, hnew, htyped⟩ := h.push hcell
  rw [Attempt.bind_ok (allocate_eq _ W), Attempt.bind_ok hread]
  refine ⟨types', ?_, fun _ => .object hnew⟩
  change Grown A.symbols W.heap types ((W.heap ++ [Cell.raw fptrClass]).set W.heap.length _) types'
  rw [hconstruct]
  exact ⟨by simp, hkept, htyped⟩

theorem allocate (cell : Cell) (h : HeapTyped table types W.heap) :
    Safe table allowed W.heap types (fun _ _ => True) (Evaluation.allocate cell W) :=
  ⟨types, ⟨by simp, fun _ _ => rfl, h.push_untyped [cell]⟩, trivial⟩

theorem asList {list : Word} {element : Ty} (h : HeapTyped table types W.heap)
    (hlist : list.Typed types (.list element)) :
    Safe table allowed W.heap types (fun types' elements => ∀ w ∈ elements, w.Typed types' element)
      (Evaluation.asList list W) := by
  obtain ⟨address, elements, rfl, -, hcell, hs⟩ := h.list_inv hlist
  rw [asList_of_some (listAt?_eq_some.mpr ⟨address, rfl, hcell⟩)]
  exact .pure h hs

theorem append {list w : Word} {element : Ty} (h : HeapTyped table types W.heap)
    (hlist : list.Typed types (.list element)) (hw : w.Typed types element) :
    Safe table allowed W.heap types (fun _ _ => True) (Evaluation.append list w W) := by
  obtain ⟨address, elements, rfl, ha, hcell, hs⟩ := h.list_inv hlist
  simp only [Evaluation.append.eq_def, listAt?_eq_some.mpr ⟨address, rfl, hcell⟩]
  refine ⟨types, ⟨by simp, fun _ _ => rfl, h.set ha fun v hv => ?_⟩, trivial⟩
  rcases List.mem_append.mp hv with hv | hv
  · exact hs v hv
  · rw [List.mem_singleton.mp hv]
    exact hw

/-- The object of a copy gets its type when it is filled. -/
theorem copied {x : Evaluation Word} {k : Nat → Evaluation β} {element : Ty}
    (hkeeps : x.KeepsHeap)
    (hx : Safe table allowed (W.heap ++ [.raw listClass]) types (Ty.list element).holds
      (x { W with heap := W.heap ++ [.raw listClass] }))
    (hk : ∀ types' W', Grown table W.heap types W'.heap types' →
      (Word.ref W.heap.length).Typed types' (.list element) →
      Safe table allowed W'.heap types' q (k W.heap.length W')) :
    Safe table allowed W.heap types q ((do
      let copy ← Evaluation.allocate (.raw listClass)
      fill copy (← x)
      k copy) W) := by
  rw [Attempt.bind_ok (allocate_eq _ W)]
  cases hr : x { W with heap := W.heap ++ [.raw listClass] } with
  | mk result W₁ =>
      have hkept := hkeeps.of_eq hr
      rw [hr] at hx
      cases result with
      | error trap =>
          rw [Attempt.bind_error hr]
          exact hx
      | ok w =>
          rw [Attempt.bind_ok hr]
          obtain ⟨types₁, hgrown, hw⟩ := hx
          have hraw := hkept.get (List.getElem?_concat_length ..) rfl
          obtain ⟨heap, types', hcopy, htyped, hnew, hsame⟩ :=
            exists_copyList hgrown.typed (hw (by simp)) hraw
          rw [Attempt.bind_ok (fill_of_some hcopy)]
          have hgrown' : Grown table W.heap types heap types' := by
            refine ⟨(hkept.of_copyList hcopy).length_le, fun a hlt => ?_, htyped⟩
            have hlt' : a < (W.heap ++ [Cell.raw listClass]).length := by
              simp
              omega
            rw [hsame a (Nat.lt_of_lt_of_le hlt' hgrown.length_le) (Nat.ne_of_lt hlt),
              hgrown.kept a hlt']
          exact .after hgrown' (hk types' _ hgrown' (.object hnew))

end Safe

-- ============================================================================
-- Expressions
-- ============================================================================

namespace CallHost

/-- A world in which well-typed code runs into no traps but those that are allowed: objects
    are what their types say, and a variable with a slot has a value of its type, unless it
    may have none. -/
structure Ready (allowed : Trap → Prop) (H : CallHost) (types : Nat → Option Ty)
    (heap : List Cell) : Prop where
  divisionByZero : allowed .divisionByZero
  indexOutOfRange : allowed .indexOutOfRange
  typed : HeapTyped H.activation.symbols types heap
  assigned : ∀ name slot ty, H.table.get? name = some slot →
    H.activation.symbols.lookupVariable H.activation.id name = .ok (some ty) →
    match H.activation.vars name with
    | some w => w.Typed types ty
    | none => allowed .unassigned

section Safe

variable {H : CallHost} {allowed : Trap → Prop}

theorem Ready.grown {types types' : Nat → Option Ty} {heap heap' : List Cell}
    (h : H.Ready allowed types heap) (hgrown : Grown H.activation.symbols heap types heap' types') :
    H.Ready allowed types' heap' := by
  refine ⟨h.divisionByZero, h.indexOutOfRange, hgrown.typed, fun name slot ty hslot hty => ?_⟩
  have hassigned := h.assigned name slot ty hslot hty
  split
  · next w hw =>
      rw [hw] at hassigned
      exact hassigned.mono (h.typed.le hgrown.kept)
  · next hnone =>
      rw [hnone] at hassigned
      exact hassigned

mutual

/-- Well-typed expressions are evaluated to values of their types. -/
theorem safe_value : ∀ {e : Expr} {ty : Ty} {f f' : Frame} {parts : List Fragment}
    {types : Nat → Option Ty} {W : World}, ExprLowered H.setting (.one e) f parts f' →
    f.activeScope = H.activation.id → f'.slots.Extends H.table →
    HasType H.activation.symbols H.activation.id e ty →
    (e.functionFree H.activation.symbols = false → H.activation.Safe allowed) →
    H.Ready allowed types W.heap →
    Safe H.activation.symbols allowed W.heap types ty.holds (e.value H.activation W)
  | .int n, ty, f, f', parts, types, W, _, _, _, ht, _, hready => by
      obtain rfl := ht.int_eq
      exact .pure hready.typed fun _ => .integer
  | .bool b, ty, f, f', parts, types, W, _, _, _, ht, _, hready => by
      obtain rfl := ht.bool_eq
      exact .pure hready.typed fun _ => .boolean
  | .ident name, ty, f, f', parts, types, W, h, hid, hext, ht, hsafe, hready => by
      obtain ⟨hty, -⟩ := ht.of_ident
      have hlookup := SymbolTable.lookupFunction_eq hty
      cases h with
      | function hf _ _ =>
          rw [H.symbols_eq, hid] at hf
          rw [hlookup] at hf
          have hfunction := Except.ok.inj hf
          rw [Expr.value_function hfunction]
          obtain rfl := SymbolTable.typeOfName_function (hlookup.trans hf) hty
          exact .pointer hfunction (hsafe (by simp [Expr.functionFree, hfunction])) hready.typed
      | «variable» hf hslot =>
          rw [H.symbols_eq, hid] at hf
          have hassigned := hready.assigned _ _ _ (hext.kept _ _ hslot.get?)
            (SymbolTable.typeOfName_variable hf hty)
          rw [hlookup] at hf
          rw [Expr.value_variable (Except.ok.inj hf)]
          cases hw : H.activation.vars name with
          | none =>
              rw [hw] at hassigned
              exact hassigned
          | some w =>
              rw [hw] at hassigned
              rw [Evaluation.read, if_neg (by simp [hassigned.boxed])]
              exact .pure hready.typed fun _ => hassigned
  | .group e, ty, f, f', parts, types, W, h, hid, hext, ht, hsafe, hready => by
      rw [Expr.value]
      cases h with
      | group he => exact safe_value he hid hext ht.of_group hsafe hready
  | .binary (.arith op) l r, ty, f, f', parts, types, W, h, hid, hext, ht, hsafe, hready => by
      obtain ⟨rfl, htl, htr⟩ := ht.of_arith
      obtain ⟨hsl, hsr⟩ := Activation.safe_operands hsafe
      cases h with
      | arith hl hr =>
          rw [Expr.value]
          refine (safe_value hl hid (hr.extends.trans hext) htl hsl hready).int
            fun types₁ a W₁ hgrown₁ => ?_
          refine (safe_value hr (hl.activeScope.trans hid) hext htr hsr
            (hready.grown hgrown₁)).int fun types₂ b W₂ hgrown₂ => ?_
          refine (Safe.compute hready.divisionByZero op a b hgrown₂.typed).bind
            fun types₃ n W₃ hgrown₃ _ => ?_
          exact .pure hgrown₃.typed fun _ => .integer
  | .binary (.order op) l r, ty, f, f', parts, types, W, h, hid, hext, ht, hsafe, hready => by
      obtain ⟨rfl, htl, htr⟩ := ht.of_order
      obtain ⟨hsl, hsr⟩ := Activation.safe_operands hsafe
      cases h with
      | order hl hr =>
          rw [Expr.value]
          refine (safe_value hl hid (hr.extends.trans hext) htl hsl hready).int
            fun types₁ a W₁ hgrown₁ => ?_
          refine (safe_value hr (hl.activeScope.trans hid) hext htr hsr
            (hready.grown hgrown₁)).int fun types₂ b W₂ hgrown₂ => ?_
          exact .pure hgrown₂.typed fun _ => .boolean
  | .binary (.logic op) l r, ty, f, f', parts, types, W, h, hid, hext, ht, hsafe, hready => by
      obtain ⟨rfl, htl, htr⟩ := ht.of_logic
      obtain ⟨hsl, hsr⟩ := Activation.safe_operands hsafe
      cases h with
      | logic hl hr =>
          rw [Expr.value]
          refine (safe_value hl hid (hr.extends.trans hext) htl hsl hready).bool
            fun types₁ a W₁ hgrown₁ => ?_
          split
          · exact .pure hgrown₁.typed fun _ => .boolean
          · refine (safe_value hr (hl.activeScope.trans hid) hext htr hsr
              (hready.grown hgrown₁)).bool fun types₂ b W₂ hgrown₂ => ?_
            exact .pure hgrown₂.typed fun _ => .boolean
  | .binary .equal l r, ty, f, f', parts, types, W, h, hid, hext, ht, hsafe, hready => by
      obtain ⟨rfl, operand, htl, htr⟩ := ht.of_equal
      obtain ⟨hsl, hsr⟩ := Activation.safe_operands hsafe
      cases h with
      | @equalValues _ _ _ _ _ _ _ found m hfound hm hl hr =>
          rw [H.oracle_eq, hid] at hfound
          have hne := Ty.ne_void_of_unboxer? hm
          obtain rfl := htl.eq_of_typeOf hfound hne
          cases operand with
          | int =>
              rw [Expr.value_equal_int hfound]
              refine (safe_value hl hid (hr.extends.trans hext) htl hsl hready).int
                fun types₁ a W₁ hgrown₁ => ?_
              refine (safe_value hr (hl.activeScope.trans hid) hext htr hsr
                (hready.grown hgrown₁)).int fun types₂ b W₂ hgrown₂ => ?_
              exact .pure hgrown₂.typed fun _ => .boolean
          | bool =>
              rw [Expr.value_equal_bool hfound]
              refine (safe_value hl hid (hr.extends.trans hext) htl hsl hready).bool
                fun types₁ a W₁ hgrown₁ => ?_
              refine (safe_value hr (hl.activeScope.trans hid) hext htr hsr
                (hready.grown hgrown₁)).bool fun types₂ b W₂ hgrown₂ => ?_
              exact .pure hgrown₂.typed fun _ => .boolean
          | _ => cases hm
      | @equalReferences _ _ _ _ _ _ _ found hfound href hl hr =>
          rw [H.oracle_eq, hid] at hfound
          obtain ⟨hne, hint, hbool⟩ := Ty.ne_of_reference href
          obtain rfl := htl.eq_of_typeOf hfound hne
          rw [Expr.value_equal_object hfound hint hbool]
          refine (safe_value hl hid (hr.extends.trans hext) htl hsl hready).bind
            fun types₁ a W₁ hgrown₁ ha => ?_
          refine (safe_value hr (hl.activeScope.trans hid) hext htr hsr
            (hready.grown hgrown₁)).bind fun types₂ b W₂ hgrown₂ hb => ?_
          rw [identical, (ha hne).isObject hint hbool, (hb hne).isObject hint hbool]
          exact .pure hgrown₂.typed fun _ => .boolean
  | .unary .not e, ty, f, f', parts, types, W, h, hid, hext, ht, hsafe, hready => by
      obtain ⟨rfl, hte⟩ := ht.of_not
      cases h with
      | not he =>
          rw [Expr.value]
          exact (safe_value he hid hext hte hsafe hready).bool fun _ _ _ hgrown =>
            .pure hgrown.typed fun _ => .boolean
  | .unary .neg e, ty, f, f', parts, types, W, h, hid, hext, ht, hsafe, hready => by
      obtain ⟨rfl, hte⟩ := ht.of_neg
      cases h with
      | neg he =>
          rw [Expr.value]
          exact (safe_value he hid hext hte hsafe hready).int fun _ _ _ hgrown =>
            .pure hgrown.typed fun _ => .integer
  | .index l r, ty, f, f', parts, types, W, h, hid, hext, ht, hsafe, hready => by
      obtain ⟨htl, htr⟩ := ht.of_index
      obtain ⟨hsl, hsr⟩ := Activation.safe_operands hsafe
      cases h with
      | @index _ _ _ _ _ _ _ found className hfound hname hl hr =>
          rw [H.oracle_eq, hid] at hfound
          have hne := Ty.ne_void_of_className? hname
          obtain rfl := ht.eq_of_typeOf hfound hne
          rw [Expr.value]
          refine (safe_value hl hid (hr.extends.trans hext) htl hsl hready).bind
            fun types₁ list W₁ hgrown₁ hlist => ?_
          refine (safe_value hr (hl.activeScope.trans hid) hext htr hsr
            (hready.grown hgrown₁)).int fun types₂ n W₂ hgrown₂ => ?_
          have hlist₂ := (hlist (by simp)).mono (hgrown₁.typed.le hgrown₂.kept)
          refine (Safe.asList hgrown₂.typed hlist₂).bind fun types₃ elements W₃ hgrown₃ hs => ?_
          refine (Safe.element hready.indexOutOfRange n hgrown₃.typed hs).bind
            fun types₄ w W₄ hgrown₄ hw => ?_
          exact .narrow hgrown₄.typed hfound fun _ => hw
  | .append l r, ty, f, f', parts, types, W, h, hid, hext, ht, hsafe, hready => by
      obtain ⟨element, rfl, hne, htl, htr⟩ := ht.of_append
      obtain ⟨hsl, hsr⟩ := Activation.safe_operands hsafe
      cases h with
      | append hl hr =>
          rw [Expr.value]
          refine (safe_value hl hid (hr.extends.trans hext) htl hsl hready).bind
            fun types₁ list W₁ hgrown₁ hlist => ?_
          refine (safe_value hr (hl.activeScope.trans hid) hext htr hsr
            (hready.grown hgrown₁)).bind fun types₂ w W₂ hgrown₂ hw => ?_
          have hlist₂ := (hlist (by simp)).mono (hgrown₁.typed.le hgrown₂.kept)
          refine (Safe.append hgrown₂.typed hlist₂ (hw hne)).bind fun types₃ _ W₃ hgrown₃ _ => ?_
          exact .pure hgrown₃.typed fun _ => hlist₂.mono (hgrown₂.typed.le hgrown₃.kept)
  | .size l, ty, f, f', parts, types, W, h, hid, hext, ht, hsafe, hready => by
      obtain ⟨rfl, element, htl⟩ := ht.of_size
      cases h with
      | size hl =>
          rw [Expr.value]
          refine (safe_value hl hid hext htl hsafe hready).bind
            fun types₁ list W₁ hgrown₁ hlist => ?_
          refine (Safe.asList hgrown₁.typed (hlist (by simp))).bind
            fun types₂ elements W₂ hgrown₂ _ => ?_
          exact .pure hgrown₂.typed fun _ => .integer
  | .call target args, ty, f, f', parts, types, W, h, hid, hext, ht, hsafe, hready => by
      obtain ⟨params, htt, hta⟩ := ht.of_call
      cases h with
      | @call _ _ _ _ _ _ _ found result hfound hlt hla =>
          rw [H.oracle_eq, hid] at hfound
          have hresult : H.activation.symbols.typeOf H.activation.id (.call target args) =
              .ok result := SymbolTable.typeOf_call.mpr ⟨found, hfound⟩
          obtain rfl := ht.typeOf_eq hresult rfl
          have hA := hsafe rfl
          rw [Expr.value]
          refine (safe_value hlt hid (hla.extends.trans hext) htt (fun _ => hA) hready).bind
            fun types₁ t W₁ hgrown₁ htyped => ?_
          refine (Safe.allocate _ hgrown₁.typed).bind fun types₂ _ W₂ hgrown₂ _ => ?_
          have hready₂ := (hready.grown hgrown₁).grown hgrown₂
          refine (safe_values hla (hlt.activeScope.trans hid) hext hta hA hready₂).bind
            fun types₃ ws W₃ hgrown₃ hws => ?_
          have ht₃ := ((htyped (by simp)).mono (hgrown₁.typed.le hgrown₂.kept)).mono
            (hgrown₂.typed.le hgrown₃.kept)
          refine (Safe.invoke hA.callee hgrown₃.typed ht₃ hws).bind
            fun types₄ w W₄ hgrown₄ hw => ?_
          exact .narrow hgrown₄.typed hresult hw
  | .field _ _, ty, f, f', parts, types, W, h, _, _, _, _, _ => by
      cases h

/-- What is passed for well-typed arguments has the types of the parameters. -/
theorem safe_values : ∀ {es : List Expr} {params : List Ty} {f f' : Frame}
    {parts : List Fragment} {types : Nat → Option Ty} {W : World},
    ExprLowered H.setting (.args es) f parts f' → f.activeScope = H.activation.id →
    f'.slots.Extends H.table → ArgsHaveTypes H.activation.symbols H.activation.id es params →
    H.activation.Safe allowed → H.Ready allowed types W.heap →
    Safe H.activation.symbols allowed W.heap types
      (fun types' ws => List.Forall₂ (Word.Typed types') ws params)
      (Expr.values H.activation es W)
  | [], params, f, f', parts, types, W, _, _, _, ht, _, hready => by
      cases ht with
      | nil => exact .pure hready.typed .nil
  | arg :: rest, params, f, f', parts, types, W, h, hid, hext, ht, hA, hready => by
      obtain ⟨ty, others, rfl, htarg, hne, htrest⟩ := ht.of_cons
      cases h with
      | argsCopied hfound harg hrest =>
          rw [H.oracle_eq, hid] at hfound
          obtain rfl := htarg.eq_of_typeOf hfound (by simp)
          rw [Expr.values_copied rest hfound]
          have hready₀ : H.Ready allowed types (W.heap ++ [.raw listClass]) :=
            hready.grown ⟨by simp, fun _ _ => rfl, hready.typed.push_untyped _⟩
          refine .copied (arg.value_keepsHeap _) (safe_value harg hid (hrest.extends.trans hext)
            htarg (fun _ => hA) hready₀) fun types₁ W₁ hgrown₁ hcopy => ?_
          refine (safe_values hrest (harg.activeScope.trans hid) hext htrest hA
            (hready.grown hgrown₁)).bind fun types₂ ws W₂ hgrown₂ hws => ?_
          exact .pure hgrown₂.typed (.cons (hcopy.mono (hgrown₁.typed.le hgrown₂.kept)) hws)
      | argsPassed hfound hnot harg hrest =>
          rw [H.oracle_eq, hid] at hfound
          have hother : ∀ element, H.activation.symbols.typeOf H.activation.id arg ≠
              .ok (.list element) := by simpa [hfound] using hnot
          rw [Expr.values_passed rest hother]
          refine (safe_value harg hid (hrest.extends.trans hext) htarg (fun _ => hA) hready).bind
            fun types₁ w W₁ hgrown₁ hw => ?_
          refine (safe_values hrest (harg.activeScope.trans hid) hext htrest hA
            (hready.grown hgrown₁)).bind fun types₂ ws W₂ hgrown₂ hws => ?_
          exact .pure hgrown₂.typed (.cons ((hw hne).mono (hgrown₁.typed.le hgrown₂.kept)) hws)

end

end Safe

end CallHost

end JasminGen
