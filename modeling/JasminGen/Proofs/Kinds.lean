/-
  JasminGen.Proofs.Kinds

  Kinds of values on the operand stack. The code of a well-typed expression is run over
  stacks of kinds: every instruction finds the kinds that its descriptor asks for, all
  paths to a place have the same kinds there, and the code leaves one reference, of the
  class that represents the type of the expression.

  The symbol table and lowering look at types apart from each other. They agree on
  everything but an append, which has no type for the symbol table and leaves its list.

  Main definitions: `Kind`, `kindTransfer`, `Expr.resultKinds`. Main result:
  `kinds_of_expression`.
-/

import JasminGen.Proofs.Effect
import JasminGen.Proofs.Flow
import JasminGen.Proofs.Slots
import JasminGen.Proofs.Typing

namespace JasminGen

-- ============================================================================
-- Kinds
-- ============================================================================

/-- What is known of a value on the operand stack or in a slot. -/
inductive Kind where
  /-- A primitive integer or truth value. -/
  | int
  /-- An instance of a class. -/
  | ref (className : String)
  | null
  deriving DecidableEq

namespace Kind

/-- A value of the second kind may stand where one of the first is expected. Every
    reference is one to an `Object`, and classes are not related otherwise. -/
def accepts : Kind → Kind → Bool
  | .int, .int => true
  | .ref _, .null => true
  | .ref expected, .ref found => expected == objectClass || expected == found
  | _, _ => false

end Kind

/-- Take values of the expected kinds off a stack, the first from the top. -/
def takeKinds : List Kind → List Kind → Option (List Kind)
  | [], stack => some stack
  | _ :: _, [] => none
  | expected :: more, top :: rest =>
    if expected.accepts top then takeKinds more rest else none

/-- How a value of the described type lies on the stack. -/
def Descriptor.kind : Descriptor → Kind
  | .int | .boolean => .int
  | .reference className => .ref className

/-- What a call takes from the stack: the last argument is on top, and the receiver is
    below the arguments. -/
def Method.takes (m : Method) : List Kind :=
  (m.params.map Descriptor.kind).reverse ++ if m.hasReceiver then [.ref m.owner] else []

def Method.gives (m : Method) : List Kind :=
  m.result?.toList.map Descriptor.kind

def Branch.takes : Branch → List Kind
  | .ifeq | .ifne | .ifgt => [.int]
  | .ifIcmpne | .ifIcmpge | .ifIcmple => [.int, .int]
  | .ifAcmpne => [.ref objectClass, .ref objectClass]

/-- What an instruction makes of the kinds on the stack, where `slots` gives the kinds of
    the values in slots; nothing if it finds a value of another kind than it works on. -/
def kindTransfer (slots : Nat → Kind) : Transfer (List Kind) := fun i stack =>
  match i with
  | .nop | .goto _ | .ret => some stack
  | .aconstNull => some (.null :: stack)
  | .iconst0 | .iconst1 | .ldcInt _ => some (.int :: stack)
  | .ldcText _ => some (.ref "java/lang/String" :: stack)
  | .aload slot => if slots slot = .int then none else some (slots slot :: stack)
  | .astore slot => if slots slot = .int then none else takeKinds [slots slot] stack
  | .iload slot => if slots slot = .int then some (.int :: stack) else none
  | .istore slot => if slots slot = .int then takeKinds [.int] stack else none
  | .decrement slot => if slots slot = .int then some stack else none
  | .pop => stack.tail?
  | .dup => stack.head?.map (· :: stack)
  | .iadd | .isub | .imul | .idiv | .ixor => (takeKinds [.int, .int] stack).map (.int :: ·)
  | .ineg => (takeKinds [.int] stack).map (.int :: ·)
  | .branch condition _ => takeKinds condition.takes stack
  | .areturn => takeKinds [.ref objectClass] stack
  | .getSystemOut => some (.ref "java/io/PrintStream" :: stack)
  | .putfield className _ ty =>
    ty.className?.bind fun valueClass => takeKinds [.ref valueClass, .ref className] stack
  | .invoke method => (takeKinds method.takes stack).map (method.gives ++ ·)
  | .new className => some (.ref className :: stack)
  | .checkcast className => (takeKinds [.ref objectClass] stack).map (.ref className :: ·)

/-- What a value of the type leaves on the stack. -/
def Ty.kinds (ty : Ty) : List Kind :=
  ty.className?.toList.map Kind.ref

/-- What the code of an expression leaves on the stack, if `ty` is what the symbol table
    says of its type: an append leaves its list, and a call without result nothing. -/
def Expr.resultKinds (e : Expr) (ty : Ty) : List Kind :=
  if e.isAppend then [.ref listClass] else ty.kinds

/-- Slots hold what they are used for: the receiver, and the variables of a scope with
    the classes of their types. Nothing is said of slots without a name. -/
structure SlotKinds (table : SymbolTable) (id : ScopeId) (slots : SlotTable) (kinds : Nat → Kind) :
    Prop where
  receiver : kinds receiverSlot = .ref entryClass
  named : ∀ name slot ty className, slots.get? name = some slot →
    table.lookupVariable id name = .ok (some ty) → ty.className? = some className →
    kinds slot = .ref className

theorem SlotKinds.of_extends {table : SymbolTable} {id : ScopeId} {slots slots' : SlotTable}
    {kinds : Nat → Kind} (h : SlotKinds table id slots' kinds) (hext : slots.Extends slots') :
    SlotKinds table id slots kinds :=
  ⟨h.receiver, fun name slot ty className hs => h.named name slot ty className (hext.kept _ _ hs)⟩

-- ============================================================================
-- Kinds in expressions
-- ============================================================================

section Expressions

variable {S : Setting} {id : ScopeId} {kinds : Nat → Kind}

/-- The code leads from one stack of kinds to the other. -/
abbrev KindFlows (kinds : Nat → Kind) (stack : List Kind) (parts : List Fragment)
    (stack' : List Kind) : Prop :=
  Flows (kindTransfer kinds) (fun _ _ _ => True) stack parts stack'

/-- The code puts a value of the kind on any stack. -/
def Pushes (kinds : Nat → Kind) (k : Kind) (parts : List Fragment) : Prop :=
  ∀ stack, KindFlows kinds stack parts (k :: stack)

theorem Flows.pushed {k : Kind} {e : Expr} {p rest : List Fragment} {stack stack' : List Kind}
    (h : Pushes kinds k p) (hrest : KindFlows kinds (k :: stack) rest stack') :
    KindFlows kinds stack (.expr e p :: rest) stack' :=
  .expr trivial (h stack) hrest

/-- A comparison leaves a wrapper of a truth value in place of its operands. -/
theorem Flows.comparison {negated : Branch} {l l' : Label} (operands stack : List Kind)
    (h : takeKinds negated.takes (operands ++ stack) = some stack) :
    KindFlows kinds (operands ++ stack) (conditionParts negated l l')
      (.ref "java/lang/Boolean" :: stack) := by
  have hconst : runPlain (kindTransfer kinds) [.iconst1] stack = some (.int :: stack) := rfl
  exact .condition h hconst rfl rfl rfl

/-- The kinds on top of the stack before and after the code of a well-typed task. -/
def ExprTask.Typed (table : SymbolTable) (id : ScopeId) (before after : List Kind) :
    ExprTask → Prop
  | .one e => ∃ ty, HasType table id e ty ∧ before = [] ∧ after = ty.kinds
  | .args es => ∃ params, ArgsHaveTypes table id es params ∧ before = [.ref arrayListClass] ∧
      after = [.ref arrayListClass]

theorem Ty.kinds_eq {ty : Ty} (h : ty ≠ .void) :
    ∃ className, ty.className? = some className ∧ ty.kinds = [.ref className] := by
  cases ty with
  | void => exact absurd rfl h
  | _ => exact ⟨_, rfl, rfl⟩

/-- An expression of a type that has values puts one on the stack. -/
theorem pushes_of_flows {e : Expr} {ty : Ty} {parts : List Fragment} {className : String}
    (hclass : ty.className? = some className) (hty : HasType S.symbols id e ty)
    (h : ∀ before after, ExprTask.Typed S.symbols id before after (.one e) →
      ∀ stack, KindFlows kinds (before ++ stack) parts (after ++ stack)) :
    Pushes kinds (.ref className) parts := by
  intro stack
  have hflow := h _ _ ⟨ty, hty, rfl, rfl⟩ stack
  rwa [Ty.kinds, hclass] at hflow

/-- The code of a well-typed expression finds the kinds it works on, and leaves those of
    its type; the code of arguments leaves the list of arguments where it was. -/
theorem ExprLowered.kindFlows {t : ExprTask} {f f' : Frame} {parts : List Fragment}
    (h : ExprLowered S t f parts f') (hS : S.oracle = S.symbols.typeOf)
    (hid : f.activeScope = id) (hslots : SlotKinds S.symbols id f'.slots kinds) :
    ∀ before after, t.Typed S.symbols id before after →
      ∀ stack, KindFlows kinds (before ++ stack) parts (after ++ stack) := by
  induction h with
  | @int f n =>
      rintro _ _ ⟨ty, ht, rfl, rfl⟩ stack
      obtain rfl := ht.int_eq
      exact .plain [.ldcInt n, .invoke .integerValueOf] rfl .nil
  | @bool f b =>
      rintro _ _ ⟨ty, ht, rfl, rfl⟩ stack
      obtain rfl := ht.bool_eq
      exact .plain [if b then .iconst1 else .iconst0, .invoke .booleanValueOf]
        (by cases b <;> rfl) .nil
  | @function f name signature s hf hs hk =>
      rintro _ _ ⟨ty, ht, rfl, rfl⟩ stack
      obtain rfl := SymbolTable.typeOfName_function (hid ▸ hf) ht.of_ident.1
      refine .plain [.new fptrClass, .dup, .aload receiverSlot, .ldcText name,
        .invoke .fptrInit] ?_ .nil
      have hload : ∀ st, kindTransfer kinds (.aload receiverSlot) st =
          some (.ref entryClass :: st) := by
        intro st
        simp [kindTransfer, hslots.receiver]
      simp only [runPlain, hload]
      rfl
  | @«variable» f f' name slot hf hs =>
      rintro _ _ ⟨ty, ht, rfl, rfl⟩ stack
      obtain ⟨className, hclass, hkinds⟩ := Ty.kinds_eq ht.of_ident.2
      have hslot := hslots.named name slot ty className hs.get?
        (SymbolTable.typeOfName_variable (hid ▸ hf) ht.of_ident.1) hclass
      refine .plain [.aload slot] ?_ .nil
      simp [runPlain, kindTransfer, Instr.isPlain, hslot, hkinds]
  | @group f f' e p _ ih =>
      rintro _ _ ⟨ty, ht, rfl, rfl⟩ stack
      exact .expr trivial (ih hid hslots _ _ ⟨ty, ht.of_group, rfl, rfl⟩ stack) .nil
  | @arith f f₁ f' op l r pl pr hl hr ihl ihr =>
      rintro _ _ ⟨ty, ht, rfl, rfl⟩ stack
      obtain ⟨rfl, htl, htr⟩ := ht.of_arith
      have hleft := pushes_of_flows rfl htl (ihl hid (hslots.of_extends hr.extends))
      have hright := pushes_of_flows rfl htr (ihr (hl.activeScope.trans hid) hslots)
      exact .pushed hleft (.plain [.invoke .integerIntValue] rfl (.pushed hright
        (.plain [.invoke .integerIntValue, op.instr, .invoke .integerValueOf]
          (by cases op <;> rfl) .nil)))
  | @order f f₁ f₂ op l r pl pr hl hr ihl ihr =>
      rintro _ _ ⟨ty, ht, rfl, rfl⟩ stack
      obtain ⟨rfl, htl, htr⟩ := ht.of_order
      have hleft := pushes_of_flows rfl htl (ihl hid (hslots.of_extends hr.extends))
      have hright := pushes_of_flows rfl htr (ihr (hl.activeScope.trans hid) hslots)
      exact .pushed hleft (.plain [.invoke .integerIntValue] rfl (.pushed hright
        (.plain [.invoke .integerIntValue] rfl
          (.comparison [.int, .int] stack (by cases op <;> rfl)))))
  | @logic f f₁ f' op l r pl pr hl hr ihl ihr =>
      rintro _ _ ⟨ty, ht, rfl, rfl⟩ stack
      obtain ⟨rfl, htl, htr⟩ := ht.of_logic
      have hleft := pushes_of_flows rfl htl (ihl hid (hslots.of_extends hr.extends))
      have hright := pushes_of_flows rfl htr (ihr (hl.activeScope.trans hid) hslots)
      have hunbox : ∀ st, runPlain (kindTransfer kinds) [.invoke .booleanBooleanValue]
          (.ref "java/lang/Boolean" :: st) = some (.int :: st) := fun _ => rfl
      have hskip : kindTransfer kinds (.branch op.skip f.nextLabel) (.int :: stack) =
          some stack := by
        cases op <;> rfl
      exact .logic trivial (hleft stack) (hunbox stack) hskip trivial (hright stack)
        (hunbox stack) rfl (by cases op <;> rfl) rfl
  | @equalValues f f₁ f₂ l r pl pr found m hfound hm hl hr ihl ihr =>
      rintro _ _ ⟨ty, ht, rfl, rfl⟩ stack
      obtain ⟨rfl, operand, htl, htr⟩ := ht.of_equal
      have hne := Ty.ne_void_of_unboxer? hm
      obtain rfl := htl.eq_of_typeOf (hS ▸ hid ▸ hfound) hne
      obtain ⟨className, hclass, -⟩ := Ty.kinds_eq hne
      have hleft := pushes_of_flows hclass htl (ihl hid (hslots.of_extends hr.extends))
      have hright := pushes_of_flows hclass htr (ihr (hl.activeScope.trans hid) hslots)
      have hunbox : ∀ st, runPlain (kindTransfer kinds) [.invoke m] (.ref className :: st) =
          some (.int :: st) := by
        intro st
        cases operand <;> cases hm <;> cases hclass <;> rfl
      exact .pushed hleft (.plain [.invoke m] (hunbox _) (.pushed hright
        (.plain [.invoke m] (hunbox _) (.comparison [.int, .int] stack rfl))))
  | @equalReferences f f₁ f₂ l r pl pr found hfound href hl hr ihl ihr =>
      rintro _ _ ⟨ty, ht, rfl, rfl⟩ stack
      obtain ⟨rfl, operand, htl, htr⟩ := ht.of_equal
      have hne := (Ty.ne_of_reference href).1
      obtain rfl := htl.eq_of_typeOf (hS ▸ hid ▸ hfound) hne
      obtain ⟨className, hclass, -⟩ := Ty.kinds_eq hne
      have hleft := pushes_of_flows hclass htl (ihl hid (hslots.of_extends hr.extends))
      have hright := pushes_of_flows hclass htr (ihr (hl.activeScope.trans hid) hslots)
      exact .pushed hleft (.pushed hright
        (.comparison [.ref className, .ref className] stack rfl))
  | @not f f' e p _ ih =>
      rintro _ _ ⟨ty, ht, rfl, rfl⟩ stack
      obtain ⟨rfl, he⟩ := ht.of_not
      have hoperand := pushes_of_flows rfl he (ih hid hslots)
      exact .pushed hoperand (.plain [.invoke .booleanBooleanValue, .iconst1, .ixor,
        .invoke .booleanValueOf] rfl .nil)
  | @neg f f' e p _ ih =>
      rintro _ _ ⟨ty, ht, rfl, rfl⟩ stack
      obtain ⟨rfl, he⟩ := ht.of_neg
      have hoperand := pushes_of_flows rfl he (ih hid hslots)
      exact .pushed hoperand (.plain [.invoke .integerIntValue, .ineg, .invoke .integerValueOf]
        rfl .nil)
  | @index f f₁ f' l r pl pr found name hfound hname hl hr ihl ihr =>
      rintro _ _ ⟨ty, ht, rfl, rfl⟩ stack
      have hne := Ty.ne_void_of_className? hname
      obtain rfl := ht.eq_of_typeOf (hS ▸ hid ▸ hfound) hne
      obtain ⟨htl, htr⟩ := ht.of_index
      have hleft := pushes_of_flows rfl htl (ihl hid (hslots.of_extends hr.extends))
      have hright := pushes_of_flows rfl htr (ihr (hl.activeScope.trans hid) hslots)
      refine .pushed hleft (.pushed hright (.plain [.invoke .integerIntValue,
        .invoke .listGetElement, .checkcast name] ?_ .nil))
      rw [Ty.kinds, hname]
      rfl
  | @append f f₁ f' l r pl pr hl hr ihl ihr =>
      rintro _ _ ⟨ty, ht, rfl, rfl⟩ stack
      obtain ⟨element, rfl, hne, htl, htr⟩ := ht.of_append
      obtain ⟨className, hclass, -⟩ := Ty.kinds_eq hne
      have hleft := pushes_of_flows rfl htl (ihl hid (hslots.of_extends hr.extends))
      have hright := pushes_of_flows hclass htr (ihr (hl.activeScope.trans hid) hslots)
      exact .pushed hleft (.plain [.dup] rfl (.pushed hright
        (.plain [.invoke .listAddElement] rfl .nil)))
  | @size f f' e p _ ih =>
      rintro _ _ ⟨ty, ht, rfl, rfl⟩ stack
      obtain ⟨rfl, element, he⟩ := ht.of_size
      have hoperand := pushes_of_flows rfl he (ih hid hslots)
      exact .pushed hoperand (.plain [.invoke .listGetSize, .invoke .integerValueOf] rfl .nil)
  | @call f f₁ f' target args pt pa params result hfound ht ha iht iha =>
      rintro _ _ ⟨ty, htc, rfl, rfl⟩ stack
      obtain ⟨params', htt, hta⟩ := htc.of_call
      obtain ⟨rfl, rfl⟩ := Ty.fptr.inj (htt.eq_of_typeOf (hS ▸ hid ▸ hfound) (by simp))
      have htarget := pushes_of_flows rfl htt (iht hid (hslots.of_extends ha.extends))
      have hargs := iha (ht.activeScope.trans hid) hslots _ _ ⟨params', hta, rfl, rfl⟩
        (.ref fptrClass :: stack)
      refine .pushed htarget (.plain [.new arrayListClass, .dup, .invoke .arrayListInit] rfl ?_)
      exact hargs.append (.plain [.invoke .fptrInvoke, narrowing ty] (by cases ty <;> rfl) .nil)
  | argsNil =>
      rintro _ _ ⟨params, ht, rfl, rfl⟩ stack
      exact .nil
  | @argsCopied f f₁ f' arg rest p pa element hfound harg hrest ih iha =>
      rintro _ _ ⟨params, ht, rfl, rfl⟩ stack
      obtain ⟨ty, others, rfl, ht, hne, htr⟩ := ht.of_cons
      obtain rfl := ht.eq_of_typeOf (hS ▸ hid ▸ hfound) (by simp)
      have hvalue := pushes_of_flows rfl ht (ih hid (hslots.of_extends hrest.extends))
      have hargs := iha (harg.activeScope.trans hid) hslots _ _ ⟨others, htr, rfl, rfl⟩ stack
      exact .plain [.dup, .new listClass, .dup] rfl (.pushed hvalue
        (.plain [.invoke .listCopy, .invoke .arrayListAdd, .pop] rfl hargs))
  | @argsPassed f f₁ f' arg rest p pa found hfound _ harg hrest ih iha =>
      rintro _ _ ⟨params, ht, rfl, rfl⟩ stack
      obtain ⟨ty, others, rfl, ht, hne, htr⟩ := ht.of_cons
      obtain ⟨className, hclass, -⟩ := Ty.kinds_eq hne
      have hvalue := pushes_of_flows hclass ht (ih hid (hslots.of_extends hrest.extends))
      have hargs := iha (harg.activeScope.trans hid) hslots _ _ ⟨others, htr, rfl, rfl⟩ stack
      exact .plain [.dup] rfl (.pushed hvalue
        (.plain [.invoke .arrayListAdd, .pop] rfl hargs))

-- ============================================================================
-- Types and what is left
-- ============================================================================

/-- Lowering takes no typed expression that the symbol table has no type for. -/
theorem HasType.exists_typeOf (hS : S.oracle = S.symbols.typeOf) :
    ∀ {e : Expr} {ty : Ty} {f f' : Frame} {parts : List Fragment}, HasType S.symbols id e ty →
      f.activeScope = id → ExprLowered S (.one e) f parts f' →
      ∃ found, S.symbols.typeOf id e = .ok found
  | .int _, _, _, _, _, _, _, _ => ⟨.int, rfl⟩
  | .bool _, _, _, _, _, _, _, _ => ⟨.bool, rfl⟩
  | .ident _, ty, _, _, _, ht, _, _ => ⟨ty, ht.of_ident.1⟩
  | .group e, _, _, _, _, ht, hid, .group he => exists_typeOf hS (e := e) ht.of_group hid he
  | .binary op _ _, _, _, _, _, _, _, _ => ⟨op.resultTy, rfl⟩
  | .unary op _, _, _, _, _, _, _, _ => ⟨op.resultTy, rfl⟩
  | .index _ _, _, _, _, _, _, hid, .index hty _ _ _ => ⟨_, hS ▸ hid ▸ hty⟩
  | .append _ _, _, _, _, _, _, _, _ => ⟨.void, rfl⟩
  | .size _, _, _, _, _, _, _, _ => ⟨.int, rfl⟩
  | .call _ _, _, _, _, _, _, hid, .call hty _ _ =>
      ⟨_, SymbolTable.typeOf_call.mpr ⟨_, hS ▸ hid ▸ hty⟩⟩

theorem HasType.list_of_isAppend {table : SymbolTable} : ∀ {e : Expr} {ty : Ty},
    HasType table id e ty → e.isAppend = true → ∃ element, ty = .list element
  | .group _, _, ht, ha => list_of_isAppend ht.of_group ha
  | .append _ _, _, ht, _ => by
      obtain ⟨element, hty, -⟩ := ht.of_append
      exact ⟨element, hty⟩

/-- What an expression leaves, in terms of its type and of what the symbol table says. -/
theorem HasType.resultKinds_eq {table : SymbolTable} {e : Expr} {ty found : Ty}
    (h : HasType table id e ty) (hfound : table.typeOf id e = .ok found) :
    e.resultKinds found = ty.kinds := by
  unfold Expr.resultKinds
  cases ha : e.isAppend with
  | true =>
      obtain ⟨element, rfl⟩ := h.list_of_isAppend ha
      rfl
  | false => rw [h.typeOf_eq hfound ha, if_neg Bool.false_ne_true]

end Expressions

-- ============================================================================
-- All paths
-- ============================================================================

/-- Code that is run from `stack` on finds the kinds it works on along every path, finds
    the same kinds at a place along all paths to it, and can come to its end, with
    `result` put on the stack. -/
structure KindsAgree (kinds : Nat → Kind) (code : List Code) (stack result : List Kind) : Prop where
  finds : ∀ (i : Nat) (st : List Kind) (x : Instr), Visits (kindTransfer kinds) code stack i st →
    code[i]? = some (.instr x) → (kindTransfer kinds x st).isSome
  unique : ∀ (i : Nat) (st st' : List Kind), Visits (kindTransfer kinds) code stack i st →
    Visits (kindTransfer kinds) code stack i st' → st = st'
  ends : Visits (kindTransfer kinds) code stack code.length (result ++ stack)

/-- Execution does not leave the code before its end. -/
def Stays (code : List Code) : Prop :=
  ∀ x, Code.instr x ∈ code → x.fallsThrough = true ∨ ∃ jump, x.jump? = some jump

section Stays

variable {c d : List Code}

@[simp] theorem stays_nil : Stays [] := by
  simp [Stays]

@[simp] theorem stays_cons_instr {x : Instr} :
    Stays (.instr x :: c) ↔ (x.fallsThrough = true ∨ ∃ jump, x.jump? = some jump) ∧ Stays c := by
  simp [Stays]

@[simp] theorem stays_cons_label {l : Label} : Stays (.label l :: c) ↔ Stays c := by
  simp [Stays]

@[simp] theorem stays_append : Stays (c ++ d) ↔ Stays c ∧ Stays d := by
  simp [Stays, or_imp, forall_and]

theorem stays_condition (negated : Branch) (otherwise after : Label) :
    Stays (Fragment.codeAll (conditionParts negated otherwise after)) := by
  simp [conditionParts, Instr.fallsThrough]

end Stays

/-- The code of expressions does not return. -/
theorem ExprLowered.stays {S : Setting} {t : ExprTask} {f f' : Frame} {parts : List Fragment}
    (h : ExprLowered S t f parts f') : Stays (Fragment.codeAll parts) := by
  induction h with
  | @bool f b => cases b <;> simp [Instr.fallsThrough]
  | @arith f f₁ f' op l r pl pr _ _ ihl ihr =>
      cases op <;> simp [Instr.fallsThrough, ArithOp.instr, ihl, ihr]
  | @logic f f₁ f' op l r pl pr _ _ ihl ihr =>
      cases op <;> simp [Instr.fallsThrough, LogicOp.decided, ihl, ihr]
  | @call f f₁ f' target args pt pa params result _ _ _ iht iha =>
      cases result <;> simp [Instr.fallsThrough, narrowing, Ty.className?, iht, iha]
  | _ => simp_all [Instr.fallsThrough, stays_condition]

theorem kindsAgree_of_flows {kinds : Nat → Kind} {parts : List Fragment} {l : Label} {count : Nat}
    {stack result : List Kind} (h : KindFlows kinds stack parts (result ++ stack))
    (hlabels : Labelled l count 0 (Fragment.codeAll parts)) (hcount : count ≤ UInt32.size)
    (hstays : Stays (Fragment.codeAll parts)) :
    KindsAgree kinds (Fragment.codeAll parts) stack result := by
  obtain ⟨states, rfl, hlast, hstates, -⟩ := h.exists_states hlabels hcount
  -- no jump closes a loop, so all jumps go forward
  have hforward : ∀ (i : Nat) (x : Instr) (jump : Jump),
      (Fragment.codeAll parts)[i]? = some (.instr x) → x.jump? = some jump →
      ∃ j, i < j ∧ (Fragment.codeAll parts)[j]? = some (.label jump.target) := by
    intro i x jump hi hjump
    have hopens : jump.closesLoop = false := by
      have hmem : jump ∈ jumps (Fragment.codeAll parts) :=
        List.mem_filterMap.mpr ⟨.instr x, List.mem_of_getElem? hi, hjump⟩
      simpa using List.countP_eq_zero.mp hlabels.loops jump hmem
    have hplace := (hlabels.directed (fun _ => False) fun _ => False).place hi hjump
    simpa [hopens] using hplace
  refine ⟨?_, ?_, ?_⟩
  · intro i st x hv hi
    obtain ⟨⟨st', ht, -⟩, -⟩ := hstates i _ hi
    rw [hstates.eq_of_visits hv, ht]
    rfl
  · intro i st st' hv hv'
    rw [hstates.eq_of_visits hv, hstates.eq_of_visits hv']
  · rw [← hlast]
    exact hstates.visits_end hforward fun i x hi => hstays x (List.mem_of_getElem? hi)

/-- The code of a well-typed expression, which is put on a stack `stack`, finds the kinds
    it works on and leaves what the symbol table says of its type. -/
theorem kinds_of_expression (program : Program) (options : Options) {id : ScopeId} {e : Expr}
    {ty : Ty} {f f' : Frame} {acts : List Action} {kinds : Nat → Kind} (stack : List Kind)
    (hscope : f.activeScope = id) (htyped : HasType (SymbolTable.ofProgram program) id e ty)
    (haccepted : Emits e.lower (Setting.ofProgram program options) f () acts f')
    (hlabels : e.labelCount ≤ UInt32.size)
    (hslots : SlotKinds (SymbolTable.ofProgram program) id f'.slots kinds) :
    ∃ found, (SymbolTable.ofProgram program).typeOf id e = .ok found ∧
      KindsAgree kinds (codesOf acts) stack (e.resultKinds found) := by
  obtain ⟨parts, hlowered, -, rfl⟩ := e.lower_lowered haccepted
  obtain ⟨found, hfound⟩ := htyped.exists_typeOf rfl hscope hlowered
  refine ⟨found, hfound, ?_⟩
  rw [htyped.resultKinds_eq hfound, codesOf_map_code]
  have hflows := hlowered.kindFlows rfl hscope hslots _ _ ⟨ty, htyped, rfl, rfl⟩ stack
  exact kindsAgree_of_flows hflows hlowered.labelled hlabels hlowered.stays

/-- A list and a flag in the program's body, and a function of a list. -/
def listProgram : Program where
  structs := []
  body := [.declare "xs" (.list .int) none, .declare "flag" .bool none]
  functions := [⟨"pick", [⟨"list", .list .int⟩, ⟨"k", .int⟩], .int,
    [.ret (some (.index (.ident "list") (.ident "k")))]⟩]

/-- `pick(xs, xs[0]) == size(append(xs, 7)) && flag` -/
def listTest : Expr :=
  .binary (.logic .and)
    (.binary .equal (.call (.ident "pick") [.ident "xs", .index (.ident "xs") (.int 0)])
      (.size (.append (.ident "xs") (.int 7))))
    (.ident "flag")

theorem hasType_listTest : HasType (.ofProgram listProgram) ⟨2⟩ listTest .bool := by
  have hxs : HasType (.ofProgram listProgram) ⟨2⟩ (.ident "xs") (.list .int) := .ident rfl (by simp)
  have hpick : HasType (.ofProgram listProgram) ⟨2⟩ (.ident "pick")
      (.fptr [.list .int, .int] .int) := .ident rfl (by simp)
  refine .logic (.equal (.call hpick ?_)
    (.size (.append hxs .int (by simp))) (by simp)) (.ident rfl (by simp))
  exact .cons hxs (by simp) (.cons (.index hxs .int) (by simp) .nil)

/-- The list is in the first slot after the receiver, and the flag in the second one. -/
def listKinds : Nat → Kind
  | 0 => .ref entryClass
  | 1 => .ref listClass
  | 2 => .ref "java/lang/Boolean"
  | _ => .int

theorem slotKinds_listKinds : SlotKinds (.ofProgram listProgram) ⟨2⟩ ⟨[("flag", 2), ("xs", 1)], 3⟩
    listKinds := by
  refine ⟨rfl, ?_⟩
  intro name slot ty className hslot hty hclass
  by_cases hflag : name = "flag"
  · subst hflag
    obtain rfl : 2 = slot := Option.some.inj hslot
    obtain rfl : Ty.bool = ty := Option.some.inj (Except.ok.inj hty)
    exact congrArg Kind.ref (Option.some.inj hclass)
  · by_cases hxs : name = "xs"
    · subst hxs
      obtain rfl : 1 = slot := Option.some.inj hslot
      obtain rfl : Ty.list .int = ty := Option.some.inj (Except.ok.inj hty)
      exact congrArg Kind.ref (Option.some.inj hclass)
    · simp [SlotTable.get?, List.lookup_cons, beq_eq_false_iff_ne.mpr hflag,
        beq_eq_false_iff_ne.mpr hxs] at hslot

theorem kinds_of_listTest :
    HasType (.ofProgram listProgram) ⟨2⟩ listTest .bool ∧
      ∃ acts f', Emits listTest.lower (.ofProgram listProgram {}) ⟨[⟨2⟩], .empty, ⟨0⟩⟩ () acts f' ∧
        ∃ found, (SymbolTable.ofProgram listProgram).typeOf ⟨2⟩ listTest = .ok found ∧
          KindsAgree listKinds (codesOf acts) [] (listTest.resultKinds found) := by
  have haccepted : Emits listTest.lower (.ofProgram listProgram {}) ⟨[⟨2⟩], .empty, ⟨0⟩⟩ () _ _ :=
    ⟨rfl, rfl, rfl⟩
  exact ⟨hasType_listTest, _, _, haccepted, kinds_of_expression listProgram {} [] rfl
    hasType_listTest haccepted (by decide) slotKinds_listKinds⟩

end JasminGen
