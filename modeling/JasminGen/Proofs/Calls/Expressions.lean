/-
  JasminGen.Proofs.Calls.Expressions

  Expressions that call no functions, anywhere in the code of a function. Whatever is on
  the stack stays there, no slot changes, and the value that direct evaluation gives is
  pushed. Direct evaluation of a well-typed expression only fails where it divides by zero
  or takes an element at a position that a list does not have, and then the machine stops
  there as well.

  Main definitions: `Activation.ofSlots`, `SlotsTyped`. Main results:
  `CallHost.follows_of_linked`, `expression_evaluated`.
-/

import JasminGen.Proofs.Calls.Soundness
import JasminGen.Proofs.Kinds

namespace JasminGen

-- ============================================================================
-- Code in its context
-- ============================================================================

/-- A function that is executed with the slots `slots`, if `table` says which variables
    have which slots. -/
def Activation.ofSlots (symbols : SymbolTable) (id : ScopeId) (table : SlotTable)
    (slots : Nat → Option Word) (callee : Callee) : Activation where
  symbols := symbols
  id := id
  vars name := (table.get? name).bind slots
  receiver := slots receiverSlot
  callee := callee

/-- The slots of variables hold values of their types. -/
def SlotsTyped (symbols : SymbolTable) (id : ScopeId) (table : SlotTable)
    (types : Nat → Option Ty) (slots : Nat → Option Word) : Prop :=
  ∀ name slot ty, table.get? name = some slot → symbols.lookupVariable id name = .ok (some ty) →
    ∃ w, slots slot = some w ∧ w.Typed types ty

namespace CallHost

variable {S : Setting} {f f' : Frame} {e : Expr} {ty : Ty} {parts : List Fragment}

/-- Code of the function, with the slots that lowering has given to variables. -/
def ofSlots (S : Setting) (horacle : S.oracle = S.symbols.typeOf) (id : ScopeId)
    (table : SlotTable) (slots : Nat → Option Word) (callee : Callee) (code : List Code) :
    CallHost where
  setting := S
  activation := .ofSlots S.symbols id table slots callee
  code := code
  table := table
  slots := slots
  symbols_eq := rfl
  oracle_eq := horacle
  receiver_eq := rfl
  named_eq := by
    intro name slot hslot
    simp [Activation.ofSlots, hslot]

theorem ready_ofSlots {horacle : S.oracle = S.symbols.typeOf} {id : ScopeId} {table : SlotTable}
    {slots : Nat → Option Word} {callee : Callee} {code : List Code} {allowed : Trap → Prop}
    {types : Nat → Option Ty} {heap : List Cell} (hdiv : allowed .divisionByZero)
    (hindex : allowed .indexOutOfRange) (hheap : HeapTyped S.symbols types heap)
    (hslots : SlotsTyped S.symbols id table types slots) :
    (ofSlots S horacle id table slots callee code).Ready allowed types heap := by
  refine ⟨hdiv, hindex, hheap, fun name slot ty hslot hty => ?_⟩
  obtain ⟨w, hw, htyped⟩ := hslots name slot ty hslot hty
  have hvars : (ofSlots S horacle id table slots callee code).activation.vars name = some w := by
    change table.get? name = some slot at hslot
    change (table.get? name).bind slots = some w
    rw [hslot, Option.bind_some, hw]
  rw [hvars]
  exact htyped

/-- The code of a well-typed expression computes its value wherever it stands. -/
theorem follows_of_linked {code : List Code} {place : Nat} (callee : Callee)
    (slots : Nat → Option Word) (stack : List Word) (W : World) (arrays : Nat → List Word)
    (horacle : S.oracle = S.symbols.typeOf) (hlowered : ExprLowered S (.one e) f parts f')
    (htyped : HasType S.symbols f.activeScope e ty)
    (hlinked : Linked code place (Fragment.codeAll parts)) :
    JasminGen.Follows callee code place ⟨stack, slots, W, arrays⟩
      (fun w => (place + codeSize parts, ty.leave w stack))
      (fun _ arrays' => ∀ address, address < W.heap.length → arrays' address = arrays address)
      (e.value (.ofSlots S.symbols f.activeScope f'.slots slots callee) W) :=
  (computes_of_lowered (H := ofSlots S horacle f.activeScope f'.slots slots callee code)
    hlowered rfl (.refl _) htyped).follows hlinked

/-- A well-typed expression runs into no traps but those that are allowed. -/
theorem safe_of_lowered {allowed : Trap → Prop} {types : Nat → Option Ty} {W : World}
    {slots : Nat → Option Word} {callee : Callee} (horacle : S.oracle = S.symbols.typeOf)
    (hlowered : ExprLowered S (.one e) f parts f') (htyped : HasType S.symbols f.activeScope e ty)
    (hcalls : e.functionFree S.symbols = false →
      (Activation.ofSlots S.symbols f.activeScope f'.slots slots callee).Safe allowed)
    (hdiv : allowed .divisionByZero) (hindex : allowed .indexOutOfRange)
    (hheap : HeapTyped S.symbols types W.heap)
    (hslots : SlotsTyped S.symbols f.activeScope f'.slots types slots) :
    Safe S.symbols allowed W.heap types ty.holds
      (e.value (.ofSlots S.symbols f.activeScope f'.slots slots callee) W) :=
  safe_value (H := ofSlots S horacle f.activeScope f'.slots slots callee []) hlowered rfl
    (.refl _) htyped hcalls (ready_ofSlots hdiv hindex hheap hslots)

end CallHost

/-- The lines of an expression are linked in code that does not declare their labels
    before. -/
theorem ExprLowered.linked {S : Setting} {f f' : Frame} {e : Expr} {parts : List Fragment}
    (hlowered : ExprLowered S (.one e) f parts f') (before after : List Code)
    (hlabels : e.labelCount ≤ UInt32.size)
    (hbefore : ∀ l ∈ declared (Fragment.codeAll parts), l ∉ declared before) :
    Linked (before ++ Fragment.codeAll parts ++ after) before.length (Fragment.codeAll parts) :=
  linked_of_nodup (hlowered.labelled.declared_nodup hlabels) hbefore

-- ============================================================================
-- Expressions without calls
-- ============================================================================

/-- Without calls, every expression that has code has a value. -/
theorem HasType.ne_void_of_lowered {S : Setting} (horacle : S.oracle = S.symbols.typeOf) :
    ∀ {e : Expr} {ty : Ty} {f f' : Frame} {parts : List Fragment},
      HasType S.symbols f.activeScope e ty → ExprLowered S (.one e) f parts f' →
      e.functionFree S.symbols = true → ty ≠ .void
  | .int _, _, _, _, _, ht, _, _ => by simp [ht.int_eq]
  | .bool _, _, _, _, _, ht, _, _ => by simp [ht.bool_eq]
  | .ident _, _, _, _, _, ht, _, _ => ht.of_ident.2
  | .group _, _, _, _, _, ht, h, hfree => by
      cases h with
      | group he => exact ne_void_of_lowered horacle ht.of_group he hfree
  | .binary (.arith _) _ _, _, _, _, _, ht, _, _ => by simp [ht.of_arith.1]
  | .binary (.order _) _ _, _, _, _, _, ht, _, _ => by simp [ht.of_order.1]
  | .binary (.logic _) _ _, _, _, _, _, ht, _, _ => by simp [ht.of_logic.1]
  | .binary .equal _ _, _, _, _, _, ht, _, _ => by simp [ht.of_equal.1]
  | .unary .not _, _, _, _, _, ht, _, _ => by simp [ht.of_not.1]
  | .unary .neg _, _, _, _, _, ht, _, _ => by simp [ht.of_neg.1]
  | .index _ _, _, _, _, _, ht, h, _ => by
      cases h with
      | @index _ _ _ _ _ _ _ found className hfound hname hl hr =>
          have hne := Ty.ne_void_of_className? hname
          rw [horacle] at hfound
          rw [ht.eq_of_typeOf hfound hne]
          exact hne
  | .append _ _, _, _, _, _, ht, _, _ => by
      obtain ⟨element, rfl, -⟩ := ht.of_append
      simp
  | .size _, _, _, _, _, ht, _, _ => by simp [ht.of_size.1]
  | .call _ _, _, _, _, _, _, _, hfree => by cases hfree
  | .field _ _, _, _, _, _, _, _, hfree => by cases hfree

/-- The code of a well-typed expression without calls, in the middle of other code: it
    pushes the value that direct evaluation gives, with its effects, or stops where direct
    evaluation fails. -/
theorem expression_evaluated {S : Setting} {f f' : Frame} {e : Expr} {ty : Ty}
    {acts : List Action} {types : Nat → Option Ty} (before after : List Code) (callee : Callee)
    (stack : List Word) (slots : Nat → Option Word) (W : World) (arrays : Nat → List Word)
    (horacle : S.oracle = S.symbols.typeOf) (haccepted : Emits e.lower S f () acts f')
    (htyped : HasType S.symbols f.activeScope e ty) (hfree : e.functionFree S.symbols = true)
    (hlabels : e.labelCount ≤ UInt32.size)
    (hbefore : ∀ l ∈ declared (codesOf acts), l ∉ declared before)
    (hheap : HeapTyped S.symbols types W.heap)
    (hslots : SlotsTyped S.symbols f.activeScope f'.slots types slots) :
    let A : Activation := .ofSlots S.symbols f.activeScope f'.slots slots callee
    let code := before ++ codesOf acts ++ after
    (∀ w W', e.value A W = (.ok w, W') →
      (∃ types', Grown S.symbols W.heap types W'.heap types' ∧ w.Typed types' ty) ∧
      ∃ arrays', (∀ address, address < W.heap.length → arrays' address = arrays address) ∧
        Caller.Leads callee code (before.length, ⟨stack, slots, W, arrays⟩)
          (before.length + (codesOf acts).length, ⟨w :: stack, slots, W', arrays'⟩)) ∧
    (∀ trap W', e.value A W = (.error trap, W') →
      (trap = .divisionByZero ∨ trap = .indexOutOfRange) ∧
      Caller.Stops callee code (before.length, ⟨stack, slots, W, arrays⟩) trap W') := by
  intro A code
  obtain ⟨parts, hlowered, -, rfl⟩ := e.lower_lowered haccepted
  simp only [code, codesOf_map_code] at hbefore ⊢
  have hne := htyped.ne_void_of_lowered horacle hlowered hfree
  have hfollows := CallHost.follows_of_linked callee slots stack W arrays horacle hlowered htyped
    (hlowered.linked before after hlabels hbefore)
  let allowed : Trap → Prop := fun trap => trap = .divisionByZero ∨ trap = .indexOutOfRange
  have hsafe : Safe S.symbols allowed W.heap types ty.holds (e.value A W) :=
    CallHost.safe_of_lowered horacle hlowered htyped (fun hcalls => by simp [hfree] at hcalls)
      (.inl rfl) (.inr rfl) hheap hslots
  constructor
  · intro w W' hvalue
    rw [hvalue] at hfollows hsafe
    obtain ⟨arrays', hkept, hleads⟩ := hfollows
    obtain ⟨types', hgrown, hw⟩ := hsafe
    refine ⟨⟨types', hgrown, hw hne⟩, arrays', hkept, ?_⟩
    rw [← Ty.leave_of_ne hne]
    exact hleads
  · intro trap W' hvalue
    rw [hvalue] at hfollows hsafe
    exact ⟨hsafe, hfollows⟩

/-- `size(append(xs, 7)) == 3 & (flag | xs[0] / 0 < 1)` -/
def guardedTest : Expr :=
  .binary (.logic .and)
    (.binary .equal (.size (.append (.ident "xs") (.int 7))) (.int 3))
    (.group (.binary (.logic .or) (.ident "flag")
      (.binary (.order .lt)
        (.binary (.arith .div) (.index (.ident "xs") (.int 0)) (.int 0)) (.int 1))))

theorem hasType_guardedTest : HasType (.ofProgram listProgram) ⟨2⟩ guardedTest .bool := by
  have hxs : HasType (.ofProgram listProgram) ⟨2⟩ (.ident "xs") (.list .int) := .ident rfl (by simp)
  have hflag : HasType (.ofProgram listProgram) ⟨2⟩ (.ident "flag") .bool := .ident rfl (by simp)
  refine .logic (.equal (.size (.append hxs .int (by simp))) .int (by simp)) (.group ?_)
  exact .logic hflag (.order (.arith (.index hxs .int) .int) .int)

/-- A list, and the object of the program. -/
def listHeap : List Cell := [.list [.integer 1, .integer 2], .plain entryClass]

def listWorld : World := ⟨⟨listHeap, []⟩, []⟩

/-- The list is in the first slot after the receiver, and the flag in the second one. -/
def listSlots : Nat → Option Word
  | 0 => some (.ref 1)
  | 1 => some (.ref 0)
  | 2 => some (.boolean true)
  | _ => none

def listTypes : Nat → Option Ty
  | 0 => some (.list .int)
  | _ => none

def listTable : SlotTable := ⟨[("flag", 2), ("xs", 1)], 3⟩

theorem slotsTyped_listSlots :
    SlotsTyped (.ofProgram listProgram) ⟨2⟩ listTable listTypes listSlots := by
  intro name slot ty hslot hty
  by_cases hflag : name = "flag"
  · subst hflag
    obtain rfl : 2 = slot := Option.some.inj hslot
    obtain rfl : Ty.bool = ty := Option.some.inj (Except.ok.inj hty)
    exact ⟨_, rfl, .boolean⟩
  · by_cases hxs : name = "xs"
    · subst hxs
      obtain rfl : 1 = slot := Option.some.inj hslot
      obtain rfl : Ty.list .int = ty := Option.some.inj (Except.ok.inj hty)
      exact ⟨_, rfl, .object rfl⟩
    · simp [listTable, SlotTable.get?, List.lookup_cons, beq_eq_false_iff_ne.mpr hflag,
        beq_eq_false_iff_ne.mpr hxs] at hslot

theorem heapTyped_listHeap : HeapTyped (.ofProgram listProgram) listTypes listHeap := by
  intro address ty hty
  cases address with
  | succ _ => cases hty
  | zero =>
      obtain rfl := Option.some.inj hty
      refine ⟨_, rfl, .list fun w hw => ?_⟩
      rcases List.mem_pair.mp hw with rfl | rfl <;> exact .integer

/-- Functions that do nothing. -/
def idleCallee : Callee where
  invoke _ _ g := (.ok .null, g)
  keeps _ _ g := .refl g.heap

/-- The list gets its element, and nothing is divided by zero. -/
theorem guardedTest_evaluated :
    HasType (.ofProgram listProgram) ⟨2⟩ guardedTest .bool ∧
      ∃ acts f',
        Emits guardedTest.lower (.ofProgram listProgram {}) ⟨[⟨2⟩], .empty, ⟨0⟩⟩ () acts f' ∧
        ∃ arrays', Caller.Leads idleCallee (codesOf acts)
          (0, ⟨[.int 5], listSlots, listWorld, fun _ => []⟩)
          ((codesOf acts).length, ⟨[.boolean true, .int 5], listSlots,
            ⟨⟨[.list [.integer 1, .integer 2, .integer 7], .plain entryClass], []⟩, []⟩,
            arrays'⟩) := by
  have haccepted :
      Emits guardedTest.lower (.ofProgram listProgram {}) ⟨[⟨2⟩], .empty, ⟨0⟩⟩ () _ _ :=
    ⟨rfl, rfl, rfl⟩
  refine ⟨hasType_guardedTest, _, _, haccepted, ?_⟩
  have hruns := expression_evaluated [] [] idleCallee [.int 5] listSlots listWorld (fun _ => [])
    rfl haccepted hasType_guardedTest rfl (by decide) (by simp) heapTyped_listHeap
    slotsTyped_listSlots
  obtain ⟨-, arrays', -, hleads⟩ := hruns.1 (.boolean true) _ rfl
  rw [List.append_nil, List.length_nil, Nat.zero_add] at hleads
  exact ⟨arrays', hleads⟩

end JasminGen
