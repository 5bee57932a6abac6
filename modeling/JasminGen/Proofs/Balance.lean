/-
  JasminGen.Proofs.Balance

  The depth of the operand stack. In the methods of a program, every place has one
  depth: the stack is empty between statements, the code of an expression puts one value
  on it, and the code of a call without result puts none. No types are assumed; all that
  is asked is that no call without result stands where a value is consumed.

  Main definitions: `depthTransfer`, `Program.noVoidOperand`, `Balanced`. Main result:
  `stack_balance`.
-/

import Mathlib.Data.List.Forall2
import JasminGen.Proofs.Effect
import JasminGen.Proofs.Flow
import JasminGen.Proofs.Lowering.Constructs
import JasminGen.Proofs.Typing

namespace JasminGen

open Fragment (GenuineAll)

-- ============================================================================
-- Calls without result
-- ============================================================================

/-- Whether an expression is a call without result, possibly in groups. -/
def Expr.isVoidCall (S : Setting) (id : ScopeId) : Expr → Bool
  | .group e => e.isVoidCall S id
  | .call target args =>
    match S.oracle id (.call target args) with
    | .ok .void => true
    | _ => false
  | _ => false

mutual

/-- Inside of the expression, no call without result stands where a value is consumed. -/
def Expr.noVoidOperand (S : Setting) (id : ScopeId) : Expr → Bool
  | .int _ | .bool _ | .ident _ => true
  | .group e => e.noVoidOperand S id
  | .unary _ e | .size e | .field e _ => !e.isVoidCall S id && e.noVoidOperand S id
  | .binary _ l r | .index l r | .append l r =>
    (!l.isVoidCall S id && l.noVoidOperand S id) && (!r.isVoidCall S id && r.noVoidOperand S id)
  | .call target args =>
    (!target.isVoidCall S id && target.noVoidOperand S id) && Expr.allGiveValues S id args

def Expr.allGiveValues (S : Setting) (id : ScopeId) : List Expr → Bool
  | [] => true
  | e :: rest => (!e.isVoidCall S id && e.noVoidOperand S id) && Expr.allGiveValues S id rest

end

/-- The expression gives a value, and so does every operand inside of it. -/
def Expr.givesValue (S : Setting) (id : ScopeId) (e : Expr) : Bool :=
  !e.isVoidCall S id && e.noVoidOperand S id

mutual

/-- No call without result stands where a value is consumed in a statement: as a condition
    or a count, as the value of a variable, or as an operand. -/
def Stmt.noVoidOperand (S : Setting) (id : ScopeId) : Stmt → Bool
  | .block body => Stmt.allNoVoidOperand S id body
  | .declare _ _ none | .ret none => true
  | .declare _ _ (some e) | .assign _ e => e.givesValue S id
  | .cond test positive none => test.givesValue S id && positive.noVoidOperand S id
  | .cond test positive (some negative) =>
    test.givesValue S id && positive.noVoidOperand S id && negative.noVoidOperand S id
  | .loop count body => count.givesValue S id && body.noVoidOperand S id
  | .call target args => (Expr.call target args).noVoidOperand S id
  | .ret (some e) | .display e => e.noVoidOperand S id
  | .append l r => l.givesValue S id && r.givesValue S id
  | .size e => e.givesValue S id

def Stmt.allNoVoidOperand (S : Setting) (id : ScopeId) : List Stmt → Bool
  | [] => true
  | s :: rest => s.noVoidOperand S id && Stmt.allNoVoidOperand S id rest

end

def Origin.noVoidOperand (S : Setting) (o : Origin) : Bool :=
  match o with
  | .constructor s =>
    s.fields.all fun field => field.value.all fun e => e.givesValue S (o.scopeId S)
  | .entry => true
  | .body ss => Stmt.allNoVoidOperand S (o.scopeId S) ss
  | .function f => Stmt.allNoVoidOperand S (o.scopeId S) f.body

/-- No call without result stands where a value is consumed in a program. -/
def Program.noVoidOperand (S : Setting) (program : Program) : Bool :=
  program.origins.all (Origin.noVoidOperand S)

-- ============================================================================
-- Depths
-- ============================================================================

/-- What an instruction makes of the depth of the operand stack. -/
def depthTransfer : Transfer Nat := fun i depth =>
  if i.pops ≤ depth then some (depth - i.pops + i.pushes) else none

theorem depthTransfer_add {i : Instr} {d d' k : Nat} (h : depthTransfer i d = some d') :
    depthTransfer i (k + d) = some (k + d') := by
  unfold depthTransfer at *
  split at h
  · next hle =>
      rw [if_pos (by omega)]
      have hd : d - i.pops + i.pushes = d' := Option.some.inj h
      congr 1
      omega
  · cases h

/-- What lies below the operands of instructions does not matter to them. -/
theorem runPlain_depth_add (is : List Instr) (d : Nat) {d' : Nat} (k : Nat)
    (h : runPlain depthTransfer is d = some d') :
    runPlain depthTransfer is (k + d) = some (k + d') := by
  induction is generalizing d with
  | nil =>
      obtain rfl : d = d' := Option.some.inj h
      rfl
  | cons i is ih =>
      rw [runPlain] at h ⊢
      split at h
      · next hplain =>
          obtain ⟨d₁, hi, hrun⟩ := Option.bind_eq_some_iff.mp h
          rw [if_pos hplain, depthTransfer_add hi]
          exact ih d₁ hrun
      · cases h

/-- How many values the code of an expression puts on the stack. -/
def Expr.leaves (S : Setting) (id : ScopeId) (e : Expr) : Nat :=
  if e.isVoidCall S id then 0 else 1

/-- The depths around a construct: the stack is empty between statements, and an
    expression adds its value. -/
def ChangesDepth (S : Setting) (id : ScopeId) : SourceNode → Nat → Nat → Prop
  | .expr e, before, after => after = before + e.leaves S id
  | .stmt _, before, after => before = 0 ∧ after = 0

-- ============================================================================
-- Depths in expressions
-- ============================================================================

section Expressions

variable {S : Setting} {id : ScopeId}

/-- The code of an expression that puts its value on the stack. -/
def PushesValue (S : Setting) (id : ScopeId) (e : Expr) (parts : List Fragment) : Prop :=
  ∀ d, ChangesDepth S id (.expr e) d (d + 1) ∧
    Flows depthTransfer (ChangesDepth S id) d parts (d + 1)

theorem Flows.value {e : Expr} {p rest : List Fragment} {d s' : Nat} (h : PushesValue S id e p)
    (hrest : Flows depthTransfer (ChangesDepth S id) (d + 1) rest s') :
    Flows depthTransfer (ChangesDepth S id) d (.expr e p :: rest) s' :=
  .expr (h d).1 (h d).2 hrest

theorem Flows.straight {rest : List Fragment} {b b' d s' : Nat} (is : List Instr)
    (h : runPlain depthTransfer is b = some b')
    (hrest : Flows depthTransfer (ChangesDepth S id) (d + b') rest s') :
    Flows depthTransfer (ChangesDepth S id) (d + b) (is.map Fragment.instr ++ rest) s' :=
  .plain is (runPlain_depth_add is b d h) hrest

/-- A comparison of two values. -/
theorem Flows.compare {negated : Branch} {l l' : Label} (h : negated.pops = 2) (d : Nat) :
    Flows depthTransfer (ChangesDepth S id) (d + 2) (conditionParts negated l l') (d + 1) := by
  have hbranch : depthTransfer (.branch negated l) (d + 2) = some d := by
    simp [depthTransfer, Instr.pops, Instr.pushes, h]
  have hgoto : depthTransfer (.goto l') (d + 1) = some (d + 1) := by
    simp [depthTransfer, Instr.pops, Instr.pushes]
  exact .condition hbranch (runPlain_depth_add [.iconst1] 0 d rfl) hgoto
    (runPlain_depth_add [.iconst0] 0 d rfl)
    (runPlain_depth_add [.invoke .booleanValueOf] 1 d rfl)

theorem Expr.givesValue_iff {e : Expr} :
    e.givesValue S id = true ↔ e.isVoidCall S id = false ∧ e.noVoidOperand S id = true := by
  simp [givesValue]

/-- What is on the stack besides `d` other values before a task: the list that arguments
    are added to. -/
def ExprTask.depthBefore : ExprTask → Nat
  | .one _ => 0
  | .args _ => 1

def ExprTask.depthAfter (S : Setting) (id : ScopeId) : ExprTask → Nat
  | .one e => e.leaves S id
  | .args _ => 1

def ExprTask.noVoidOperand (S : Setting) (id : ScopeId) : ExprTask → Bool
  | .one e => e.noVoidOperand S id
  | .args es => Expr.allGiveValues S id es

theorem pushesValue_of_flows {e : Expr} {parts : List Fragment} (hvoid : e.isVoidCall S id = false)
    (h : ∀ d, Flows depthTransfer (ChangesDepth S id) (d + (ExprTask.one e).depthBefore) parts
      (d + (ExprTask.one e).depthAfter S id)) : PushesValue S id e parts := by
  intro d
  have hleaves : e.leaves S id = 1 := by rw [Expr.leaves, hvoid]; rfl
  refine ⟨by rw [ChangesDepth, hleaves], ?_⟩
  have hd := h d
  rwa [ExprTask.depthBefore, ExprTask.depthAfter, hleaves] at hd

/-- An operand that gives a value: what is known of its code when it has no call without
    result inside is enough. -/
theorem PushesValue.of_givesValue {e : Expr} {parts : List Fragment}
    (hvalue : e.givesValue S id = true)
    (h : e.noVoidOperand S id = true → ∀ d, Flows depthTransfer (ChangesDepth S id)
      (d + (ExprTask.one e).depthBefore) parts (d + (ExprTask.one e).depthAfter S id)) :
    PushesValue S id e parts := by
  obtain ⟨hvoid, hoperands⟩ := Expr.givesValue_iff.mp hvalue
  exact pushesValue_of_flows hvoid (h hoperands)

theorem Expr.oracle_of_isVoidCall (hS : S.oracle = S.symbols.typeOf) :
    ∀ {e : Expr}, e.isVoidCall S id = true → S.oracle id e = .ok .void
  | .group e, h => by
      have he := oracle_of_isVoidCall hS (e := e) h
      rw [hS] at he ⊢
      exact he
  | .call target args, h => by
      rw [isVoidCall] at h
      split at h
      · assumption
      · cases h

theorem Expr.not_isVoidCall {e : Expr} {ty : Ty} (hS : S.oracle = S.symbols.typeOf)
    (hty : S.oracle id e = .ok ty) (hne : ty ≠ .void) : e.isVoidCall S id = false := by
  cases h : e.isVoidCall S id with
  | false => rfl
  | true =>
      rw [oracle_of_isVoidCall hS h] at hty
      exact absurd (Except.ok.inj hty).symm hne

theorem Expr.leaves_call {target : Expr} {args : List Expr} {params : List Ty} {result : Ty}
    (hS : S.oracle = S.symbols.typeOf) (h : S.oracle id target = .ok (.fptr params result)) :
    (Expr.call target args).leaves S id = if result.isVoid then 0 else 1 := by
  have hresult : S.oracle id (.call target args) = .ok result := by
    rw [hS] at h ⊢
    exact SymbolTable.typeOf_call.mpr ⟨params, h⟩
  rw [leaves, isVoidCall, hresult]
  cases result <;> rfl

theorem narrowing_depth (result : Ty) :
    runPlain depthTransfer [.invoke .fptrInvoke, narrowing result] 2 =
      some (if result.isVoid then 0 else 1) := by
  cases result <;> rfl

/-- The code of an expression has a depth at every place, and puts the value of the
    expression on the stack. -/
theorem ExprLowered.flows {t : ExprTask} {f f' : Frame} {parts : List Fragment}
    (h : ExprLowered S t f parts f') (hS : S.oracle = S.symbols.typeOf)
    (hid : f.activeScope = id) (hvoid : t.noVoidOperand S id = true) :
    ∀ d, Flows depthTransfer (ChangesDepth S id) (d + t.depthBefore) parts
      (d + t.depthAfter S id) := by
  induction h with
  | @int f n =>
      intro d
      exact .straight [.ldcInt n, .invoke .integerValueOf] rfl .nil
  | @bool f b =>
      intro d
      exact .straight [if b then .iconst1 else .iconst0, .invoke .booleanValueOf]
        (by cases b <;> rfl) .nil
  | @function f name =>
      intro d
      exact .straight [.new fptrClass, .dup, .aload receiverSlot, .ldcText name,
        .invoke .fptrInit] rfl .nil
  | @«variable» f f' name slot =>
      intro d
      exact .straight [.aload slot] rfl .nil
  | @group f f' e p _ ih =>
      intro d
      exact .expr rfl (ih hid hvoid d) .nil
  | @arith f f₁ f' op l r pl pr hl _ ihl ihr =>
      obtain ⟨hvl, hvr⟩ := Bool.and_eq_true_iff.mp hvoid
      have hleft := PushesValue.of_givesValue hvl (ihl hid)
      have hright := PushesValue.of_givesValue hvr (ihr (hl.activeScope.trans hid))
      intro d
      exact .value hleft (.straight [.invoke .integerIntValue] (b := 1) rfl (.value hright
        (.straight [.invoke .integerIntValue, op.instr, .invoke .integerValueOf]
          (b := 2) (by cases op <;> rfl) .nil)))
  | @order f f₁ f₂ op l r pl pr hl _ ihl ihr =>
      obtain ⟨hvl, hvr⟩ := Bool.and_eq_true_iff.mp hvoid
      have hleft := PushesValue.of_givesValue hvl (ihl hid)
      have hright := PushesValue.of_givesValue hvr (ihr (hl.activeScope.trans hid))
      intro d
      exact .value hleft (.straight [.invoke .integerIntValue] (b := 1) rfl (.value hright
        (.straight [.invoke .integerIntValue] (b := 2) rfl (.compare (by cases op <;> rfl) d))))
  | @logic f f₁ f' op l r pl pr hl _ ihl ihr =>
      obtain ⟨hvl, hvr⟩ := Bool.and_eq_true_iff.mp hvoid
      have hleft := PushesValue.of_givesValue hvl (ihl hid)
      have hright := PushesValue.of_givesValue hvr (ihr (hl.activeScope.trans hid))
      intro d
      have hskip : depthTransfer (.branch op.skip f.nextLabel) (d + 1) = some d := by
        cases op <;> simp [depthTransfer, Instr.pops, Instr.pushes, Branch.pops, LogicOp.skip]
      have hgoto : depthTransfer (.goto f.nextLabel.next) (d + 1) = some (d + 1) := by
        simp [depthTransfer, Instr.pops, Instr.pushes]
      exact .logic (hleft d).1 (hleft d).2 (runPlain_depth_add _ 1 d rfl) hskip (hright d).1
        (hright d).2 (runPlain_depth_add _ 1 d rfl) hgoto
        (runPlain_depth_add _ 0 d (by cases op <;> rfl)) (runPlain_depth_add _ 1 d rfl)
  | @equalValues f f₁ f₂ l r pl pr ty m _ hm hl _ ihl ihr =>
      obtain ⟨hvl, hvr⟩ := Bool.and_eq_true_iff.mp hvoid
      have hleft := PushesValue.of_givesValue hvl (ihl hid)
      have hright := PushesValue.of_givesValue hvr (ihr (hl.activeScope.trans hid))
      intro d
      have hunbox : ∀ b, runPlain depthTransfer [.invoke m] (b + 1) = some (b + 1) := by
        intro b
        apply runPlain_depth_add _ 1 b
        cases ty <;> cases hm <;> rfl
      exact .value hleft (.plain [.invoke m] (hunbox d) (.value hright
        (.plain [.invoke m] (hunbox (d + 1)) (.compare rfl d))))
  | @equalReferences f f₁ f₂ l r pl pr ty _ _ hl _ ihl ihr =>
      obtain ⟨hvl, hvr⟩ := Bool.and_eq_true_iff.mp hvoid
      have hleft := PushesValue.of_givesValue hvl (ihl hid)
      have hright := PushesValue.of_givesValue hvr (ihr (hl.activeScope.trans hid))
      intro d
      exact .value hleft (.value hright (.compare rfl d))
  | @not f f' e p _ ih =>
      have hvalue := PushesValue.of_givesValue hvoid (ih hid)
      intro d
      exact .value hvalue (.straight [.invoke .booleanBooleanValue, .iconst1, .ixor,
        .invoke .booleanValueOf] (b := 1) rfl .nil)
  | @neg f f' e p _ ih =>
      have hvalue := PushesValue.of_givesValue hvoid (ih hid)
      intro d
      exact .value hvalue (.straight [.invoke .integerIntValue, .ineg, .invoke .integerValueOf]
        (b := 1) rfl .nil)
  | @index f f₁ f' l r pl pr ty name _ _ hl _ ihl ihr =>
      obtain ⟨hvl, hvr⟩ := Bool.and_eq_true_iff.mp hvoid
      have hleft := PushesValue.of_givesValue hvl (ihl hid)
      have hright := PushesValue.of_givesValue hvr (ihr (hl.activeScope.trans hid))
      intro d
      exact .value hleft (.value hright (.straight [.invoke .integerIntValue,
        .invoke .listGetElement, .checkcast name] (b := 2) rfl .nil))
  | @append f f₁ f' l r pl pr hl _ ihl ihr =>
      obtain ⟨hvl, hvr⟩ := Bool.and_eq_true_iff.mp hvoid
      have hleft := PushesValue.of_givesValue hvl (ihl hid)
      have hright := PushesValue.of_givesValue hvr (ihr (hl.activeScope.trans hid))
      intro d
      exact .value hleft (.straight [.dup] (b := 1) (d := d) rfl (.value hright
        (.straight [.invoke .listAddElement] (b := 3) rfl .nil)))
  | @size f f' e p _ ih =>
      have hvalue := PushesValue.of_givesValue hvoid (ih hid)
      intro d
      exact .value hvalue (.straight [.invoke .listGetSize, .invoke .integerValueOf] (b := 1)
        rfl .nil)
  | @call f f₁ f' target args pt pa params result hty ht _ iht iha =>
      obtain ⟨hvt, hna⟩ := Bool.and_eq_true_iff.mp hvoid
      have htarget := PushesValue.of_givesValue hvt (iht hid)
      have hargs := iha (ht.activeScope.trans hid) hna
      intro d
      rw [ExprTask.depthAfter, Expr.leaves_call hS (hid ▸ hty)]
      refine .value htarget (.straight [.new arrayListClass, .dup, .invoke .arrayListInit]
        (b := 1) rfl ?_)
      exact (hargs (d + 1)).append (.straight [.invoke .fptrInvoke, narrowing result] (b := 2)
        (narrowing_depth result) .nil)
  | argsNil =>
      intro d
      exact .nil
  | @argsCopied f f₁ f' arg rest p pa element _ harg _ ih iha =>
      obtain ⟨hva, hna⟩ := Bool.and_eq_true_iff.mp hvoid
      have hvalue := PushesValue.of_givesValue hva (ih hid)
      have hargs := iha (harg.activeScope.trans hid) hna
      intro d
      exact .straight [.dup, .new listClass, .dup] (b := 1) rfl (.value hvalue
        (.straight [.invoke .listCopy, .invoke .arrayListAdd, .pop] (b := 5) rfl (hargs d)))
  | @argsPassed f f₁ f' arg rest p pa ty _ _ harg _ ih iha =>
      obtain ⟨hva, hna⟩ := Bool.and_eq_true_iff.mp hvoid
      have hvalue := PushesValue.of_givesValue hva (ih hid)
      have hargs := iha (harg.activeScope.trans hid) hna
      intro d
      exact .straight [.dup] (b := 1) rfl (.value hvalue
        (.straight [.invoke .arrayListAdd, .pop] (b := 3) rfl (hargs d)))

end Expressions

-- ============================================================================
-- Depths in statements
-- ============================================================================

section Statements

variable {S : Setting} {id : ScopeId}

/-- The code of a condition, between empty stacks. -/
theorem Flows.cond {test : Expr} {positive : Stmt} {pt pp pn : List Fragment} {l l' : Label}
    (ht : PushesValue S id test pt)
    (hp : Flows depthTransfer (ChangesDepth S id) 0 pp 0)
    (hn : Flows depthTransfer (ChangesDepth S id) 0 pn 0) :
    Flows depthTransfer (ChangesDepth S id) 0
      ([.expr test pt, .instr (.invoke .booleanBooleanValue), .instr (.branch .ifeq l),
        .stmt positive pp, .instr (.goto l'), .label l, .instr .nop] ++ pn ++
        [.label l', .instr .nop]) 0 := by
  obtain ⟨htest, Lt, hkt, hft⟩ := ht 0
  obtain ⟨Lp, hkp, hfp⟩ := hp
  obtain ⟨Ln, hkn, hfn⟩ := hn
  refine ⟨Lt ++ Lp ++ (l, 0) :: (Ln ++ [(l', 0)]), by simp [hkt, hkp, hkn], fun Λ hΛ => ?_⟩
  simp only [List.forall_mem_append, List.forall_mem_cons] at hΛ
  obtain ⟨⟨hΛt, hΛp⟩, hΛl, hΛn, hΛl', -⟩ := hΛ
  have hlast : Fits depthTransfer Λ (ChangesDepth S id) 0 [.label l', .instr .nop] 0 :=
    .label hΛl' (.plain [.nop] rfl .nil)
  have hnegative := (hfn Λ hΛn).append hlast
  have hpositive := Fits.stmt (x := positive) ⟨rfl, rfl⟩ (hfp Λ hΛp)
    (.goto rfl hΛl' (.label hΛl (.plain [.nop] rfl hnegative)))
  simpa using Fits.expr htest (hft Λ hΛt)
    (.plain [.invoke .booleanBooleanValue] rfl (.branch rfl hΛl hpositive))

/-- The code of a loop, between empty stacks. Its body starts with an empty stack each
    time. -/
theorem Flows.loop {count : Expr} {body : Stmt} {pc pb : List Fragment} {l l' : Label}
    (slot : Nat) (hc : PushesValue S id count pc)
    (hb : Flows depthTransfer (ChangesDepth S id) 0 pb 0) :
    Flows depthTransfer (ChangesDepth S id) 0
      [.expr count pc, .instr (.invoke .integerIntValue), .instr (.istore slot),
        .instr (.goto l'), .label l, .stmt body pb, .instr (.decrement slot), .label l',
        .instr (.iload slot), .instr (.branch .ifgt l)] 0 := by
  obtain ⟨hcount, Lc, hkc, hfc⟩ := hc 0
  obtain ⟨Lb, hkb, hfb⟩ := hb
  refine ⟨Lc ++ (l, 0) :: (Lb ++ [(l', 0)]), by simp [hkc, hkb], fun Λ hΛ => ?_⟩
  simp only [List.forall_mem_append, List.forall_mem_cons] at hΛ
  obtain ⟨hΛc, hΛl, hΛb, hΛl', -⟩ := hΛ
  have htest : Fits depthTransfer Λ (ChangesDepth S id) 0
      [.label l', .instr (.iload slot), .instr (.branch .ifgt l)] 0 :=
    .label hΛl' (.plain [.iload slot] rfl (.branch rfl hΛl .nil))
  have hbody := Fits.label hΛl (.stmt (x := body) ⟨rfl, rfl⟩ (hfb Λ hΛb)
    (.plain [.decrement slot] rfl htest))
  exact .expr hcount (hfc Λ hΛc)
    (.plain [.invoke .integerIntValue, .istore slot] rfl (.goto rfl hΛl' hbody))

def StmtTask.noVoidOperand (S : Setting) (id : ScopeId) : StmtTask → Bool
  | .one s => s.noVoidOperand S id
  | .many ss => Stmt.allNoVoidOperand S id ss

theorem Stmt.noVoidOperand_cond {test : Expr} {positive : Stmt} {negative : Option Stmt} :
    (Stmt.cond test positive negative).noVoidOperand S id = true ↔
      test.givesValue S id = true ∧ positive.noVoidOperand S id = true ∧
        Stmt.allNoVoidOperand S id negative.toList = true := by
  cases negative <;> simp [Stmt.noVoidOperand, Stmt.allNoVoidOperand, and_assoc]

/-- The code of an expression that gives a value. -/
theorem ExprLowered.pushesValue {e : Expr} {f f' : Frame} {parts : List Fragment}
    (h : ExprLowered S (.one e) f parts f') (hS : S.oracle = S.symbols.typeOf)
    (hid : f.activeScope = id) (hvalue : e.givesValue S id = true) :
    PushesValue S id e parts := by
  exact .of_givesValue hvalue (h.flows hS hid)

theorem ZeroCode.depth {ty : Ty} {is : List Instr} (h : ZeroCode S id ty is) :
    runPlain depthTransfer is 0 = some 1 := by
  cases h <;> rfl

/-- A return ends the method, and leaves any depth to the code below it. -/
theorem Flows.leave {i : Instr} {d : Nat} (h : i.pops ≤ d) (hfalls : i.fallsThrough = false)
    (hjump : i.jump? = none) : Flows depthTransfer (ChangesDepth S id) d [.instr i] 0 := by
  refine ⟨[], by simp, fun Λ _ => .leave (if_pos h) hfalls ?_ .nil⟩
  intro jump hj
  rw [hjump] at hj
  cases hj

/-- The stack is empty before and after the code of a statement. -/
theorem StmtLowered.flows {t : StmtTask} {f f' : Frame} {parts : List Fragment}
    (h : StmtLowered S t f parts f') (hS : S.oracle = S.symbols.typeOf)
    (hid : f.activeScope = id) (hvoid : t.noVoidOperand S id = true) :
    Flows depthTransfer (ChangesDepth S id) 0 parts 0 := by
  induction h with
  | block _ ih => exact ih hid hvoid
  | @declare f f₁ f' name ty e p slot he _ =>
      have hvalue := he.pushesValue hS hid hvoid
      exact .value hvalue (.straight [.astore slot] (b := 1) rfl .nil)
  | @declareZero f f' name ty is slot hz _ =>
      exact .plain is hz.depth (.plain [.astore slot] rfl .nil)
  | @assign f f₁ f' name e p slot he _ =>
      have hvalue := he.pushesValue hS hid hvoid
      exact .value hvalue (.straight [.astore slot] (b := 1) rfl .nil)
  | cond ht hp _ ihp ihn =>
      obtain ⟨hvt, hvp, hvn⟩ := Stmt.noVoidOperand_cond.mp hvoid
      have hid₁ := ht.activeScope.trans hid
      exact .cond (ht.pushesValue hS hid hvt) (ihp hid₁ hvp)
        (ihn (hp.activeScope.trans hid₁) hvn)
  | @loop f f₁ f' count body pc pb _ hc _ ihb =>
      simp only [StmtTask.noVoidOperand, Stmt.noVoidOperand, Bool.and_eq_true] at hvoid
      exact .loop f.slots.next (hc.pushesValue hS hid hvoid.1)
        (ihb (hc.activeScope.trans hid) hvoid.2)
  | @call f f' target args p ty hty hc =>
      have hcall := hc.flows hS hid hvoid 0
      cases hc with
      | @call _ _ _ _ _ _ _ params result hty' _ _ =>
          obtain rfl : ty = .fptr params result := Except.ok.inj (hty.symm.trans hty')
          have hdrop : runPlain depthTransfer (dropping (.fptr params result))
              (0 + (Expr.call target args).leaves S id) = some 0 := by
            rw [Expr.leaves_call hS (hid ▸ hty)]
            cases result <;> rfl
          rw [← List.append_nil (List.map Fragment.instr _)]
          exact .expr rfl hcall (.plain _ hdrop .nil)
  | ret => exact .leave (Nat.le_refl 0) rfl rfl
  | @retValue f f' e p ty hty he =>
      have hvalue := he.flows hS hid hvoid 0
      cases hv : ty.isVoid with
      | true => exact .expr rfl hvalue (.leave (Nat.zero_le _) rfl rfl)
      | false =>
          have hne : ty ≠ .void := by
            rintro rfl
            cases hv
          have hleaves : e.leaves S id = 1 := by
            rw [Expr.leaves, Expr.not_isVoidCall hS (hid ▸ hty) hne]
            rfl
          rw [ExprTask.depthAfter, hleaves] at hvalue
          exact .expr (by rw [ChangesDepth, hleaves]) hvalue (.leave (Nat.le_refl 1) rfl rfl)
  | @display f f' e p ty unboxer printer hty hu hp he =>
      have hne := Ty.ne_void_of_unboxer? hu
      have hvalue := pushesValue_of_flows (Expr.not_isVoidCall hS (hid ▸ hty) hne)
        (he.flows hS hid hvoid)
      have hprint : runPlain depthTransfer [.invoke unboxer, .invoke printer] 2 = some 0 := by
        cases ty <;> cases hu <;> cases hp <;> rfl
      exact .plain [.getSystemOut] rfl (.value hvalue
        (.plain [.invoke unboxer, .invoke printer] hprint .nil))
  | append he =>
      have hvalue := pushesValue_of_flows rfl (he.flows hS hid hvoid)
      exact .value hvalue (.straight [.pop] (b := 1) rfl .nil)
  | size he =>
      have hvalue := pushesValue_of_flows rfl (he.flows hS hid hvoid)
      exact .value hvalue (.straight [.pop] (b := 1) rfl .nil)
  | nil => exact .nil
  | cons hs _ ih ihs =>
      simp only [StmtTask.noVoidOperand, Stmt.allNoVoidOperand, Bool.and_eq_true] at hvoid
      exact .stmt ⟨rfl, rfl⟩ (ih hid hvoid.1) (ihs (hs.activeScope.trans hid) hvoid.2)

end Statements

-- ============================================================================
-- Depths in methods
-- ============================================================================

section Methods

variable {S : Setting} {id : ScopeId}

theorem InitialLowered.flows {field : FieldDef} {f f' : Frame} {p : List Fragment}
    (h : InitialLowered S field f p f') (hS : S.oracle = S.symbols.typeOf)
    (hid : f.activeScope = id)
    (hvoid : field.value.all (fun e => e.givesValue S id) = true) (d : Nat) :
    Flows depthTransfer (ChangesDepth S id) d p (d + 1) := by
  cases h with
  | value he => exact .value (he.pushesValue hS hid hvoid) .nil
  | null => exact .straight [.aconstNull] (b := 0) rfl .nil
  | zero _ hz =>
      rw [← List.append_nil (List.map Fragment.instr _)]
      exact .straight _ (b := 0) hz.depth .nil

theorem FieldsLowered.flows {className : String} {fields : List FieldDef} {f f' : Frame}
    {p : List Fragment} (h : FieldsLowered S className fields f p f')
    (hS : S.oracle = S.symbols.typeOf) (hid : f.activeScope = id)
    (hvoid : fields.all (fun field => field.value.all fun e => e.givesValue S id) = true) :
    Flows depthTransfer (ChangesDepth S id) 0 p 0 := by
  induction h with
  | nil => exact .nil
  | @cons f f₁ f' field rest p ps hi _ ih =>
      rw [List.all_cons, Bool.and_eq_true] at hvoid
      have hrest := ih ((Frame.activeScope_congr hi.entered).trans hid) hvoid.2
      exact .plain [.aload receiverSlot] rfl ((hi.flows hS hid hvoid.1 1).append
        (.plain [.putfield className field.name field.ty] rfl hrest))

/-- The stack is empty when a method starts, and the method does not fall into another
    depth at its end. -/
theorem MethodLowered.flows {o : Origin} {n n' : Label} {m : LoweredMethod}
    (h : MethodLowered S o n m n') (hS : S.oracle = S.symbols.typeOf)
    (hvoid : o.noVoidOperand S = true) :
    Flows depthTransfer (ChangesDepth S (o.scopeId S)) 0 m.parts 0 := by
  have hret : Flows depthTransfer (ChangesDepth S (o.scopeId S)) 0 [.instr .ret] 0 :=
    .leave (Nat.le_refl 0) rfl rfl
  cases h with
  | @constructor s id n f' p hid hf =>
      have hscope : Origin.scopeId S (.constructor s) = id := by rw [Origin.scopeId, hid]; rfl
      have hfields := hf.flows hS hscope.symm hvoid
      exact .plain [.aload receiverSlot, .invoke .objectInit] rfl (hfields.append hret)
  | entry =>
      exact .plain [.new entryClass, .dup, .invoke (.constructor entryClass)] rfl
        (.leave (Nat.zero_le 1) rfl rfl)
  | @body ss id n f' p hid hb =>
      have hscope : Origin.scopeId S (.body ss) = id := by rw [Origin.scopeId, hid]; rfl
      have hbody := hb.flows hS hscope.symm hvoid
      exact .plain [.aload receiverSlot, .invoke .objectInit] rfl (hbody.append hret)
  | @function fn id signature slots n f' p hid _ _ hb =>
      have hscope : Origin.scopeId S (.function fn) = id := by rw [Origin.scopeId, hid]; rfl
      have hbody := hb.flows hS hscope.symm hvoid
      cases signature.result.isVoid with
      | true => exact hbody.append hret
      | false => simpa using hbody

/-- A depth of the operand stack for every place of a method. -/
structure Balanced (S : Setting) (o : Origin) (m : LoweredMethod) : Prop where
  /-- The method holds the constructs of what it is made from. -/
  nodes : Fragment.nodesAll m.parts = o.inside
  /-- The code of each of them is what lowering it emits. -/
  genuine : GenuineAll S m.parts
  /-- The stack is empty at first, and every instruction finds its operands and leads to
      the depth of each of its successors. It is empty between statements, and an
      expression adds its value. -/
  depths : ∃ depth : Nat → Nat, depth 0 = 0 ∧ Consistent depthTransfer m.code.body depth ∧
    ∀ span ∈ Fragment.spansAll 0 m.parts,
      ChangesDepth S (o.scopeId S) span.node (depth span.start) (depth span.stop)

theorem MethodLowered.balanced {o : Origin} {n n' : Label} {m : LoweredMethod}
    (h : MethodLowered S o n m n') (hgenuine : GenuineAll S m.parts)
    (hS : S.oracle = S.symbols.typeOf) (hvoid : o.noVoidOperand S = true)
    (hcount : o.labelCount ≤ UInt32.size) : Balanced S o m := by
  obtain ⟨depth, hentry, -, hconsistent, hspans⟩ :=
    (h.flows hS hvoid).exists_states h.labelled.2 hcount
  exact ⟨h.nodes, hgenuine, depth, hentry, hconsistent, hspans⟩

theorem MethodsLowered.balanced {os : List Origin} {n n' : Label} {ms : List LoweredMethod}
    (h : MethodsLowered S os n ms n') (hS : S.oracle = S.symbols.typeOf)
    (hvoid : os.all (Origin.noVoidOperand S) = true)
    (hcount : (os.map Origin.labelCount).sum ≤ UInt32.size) :
    List.Forall₂ (Balanced S) os ms := by
  induction h with
  | nil => exact .nil
  | cons hm hg _ ih =>
      rw [List.all_cons, Bool.and_eq_true] at hvoid
      rw [List.map_cons, List.sum_cons] at hcount
      exact .cons (hm.balanced hg hS hvoid.1 (by omega)) (ih hvoid.2 (by omega))

end Methods

/-- Every method of a program has one depth of the operand stack at each of its places, if
    no call without result stands where a value is consumed. -/
theorem stack_balance {σ ω : Type} [Sink σ ω] (program : Program) (options : Options) (sink : σ)
    (hrun : (generate (Setting.ofProgram program options) program sink).1 = .ok ())
    (hcount : program.labelCount < UInt32.size)
    (hvoid : program.noVoidOperand (Setting.ofProgram program options) = true) :
    ∃ ms, methods (program.codes (Setting.ofProgram program options)) =
        ms.map LoweredMethod.code ∧
      List.Forall₂ (Balanced (Setting.ofProgram program options)) program.origins ms := by
  obtain ⟨ms, hms, hcodes, -⟩ := Program.lower_methods (generate_emits hrun)
  exact ⟨ms, hcodes.methods_eq, hms.balanced rfl hvoid (Nat.le_of_lt hcount)⟩

/-- A program with a struct, a loop, a condition, and calls with and without result. -/
def callingProgram : Program where
  structs := [⟨"Pair", [⟨"left", .int, some (.binary (.arith .add) (.int 1) (.int 2))⟩,
    ⟨"right", .bool, none⟩]⟩]
  body := [.declare "n" .int (some (.call (.ident "twice") [.int 3])),
    .loop (.ident "n") (.cond (.binary (.order .lt) (.ident "n") (.int 9))
      (.call (.ident "note") [.ident "n"]) none)]
  functions := [⟨"twice", [⟨"k", .int⟩], .int,
      [.ret (some (.binary (.arith .add) (.ident "k") (.ident "k")))]⟩,
    ⟨"note", [⟨"k", .int⟩], .void, [.display (.ident "k")]⟩]

theorem stack_balance_callingProgram :
    callingProgram.noVoidOperand (.ofProgram callingProgram {}) = true ∧
      ∃ ms, methods (callingProgram.codes (.ofProgram callingProgram {})) =
          ms.map LoweredMethod.code ∧
        List.Forall₂ (Balanced (.ofProgram callingProgram {})) callingProgram.origins ms :=
  ⟨rfl, stack_balance callingProgram {} Memory.empty (generate_memory_ok _ (by decide +kernel)) (by decide) rfl⟩

end JasminGen
