/-
  JasminGen.Proofs.Lowering.Refusals

  What the output refuses is never passed over. A computation could ask for something and go
  on whatever the answer is; those of the lowering do not. The first request that is refused
  ends them with its error, in the frame of the request.

  There is one lemma for each way to put computations together, and one for each function of
  the lowering.

  Main definitions: `Dialogue.Propagates`, `Gen.Propagates`.
  Main result: `Program.propagates_lower`.
-/

import JasminGen.Codegen.Program

namespace JasminGen

/-- Each request that is refused ends the computation with its error. -/
inductive Dialogue.Propagates {α : Type} : Dialogue α → Prop where
  | done {result : Except Failure α} {frame : Frame} : Propagates (.done result frame)
  | ask {r : Request} {next : Except GenError Unit → Dialogue α}
      (refused : ∀ reason, next (.error reason) = .done (.error (.error reason)) r.frame)
      (accepted : (next (.ok ())).Propagates) : Propagates (.ask r next)

/-- The same in every setting and from every frame. -/
def Gen.Propagates {α : Type} (m : Gen α) : Prop := ∀ S f, (m S f).Propagates

-- ============================================================================
-- Sequences and primitive computations
-- ============================================================================

section

variable {α β : Type}

theorem Dialogue.Propagates.bind {d : Dialogue α} {f : α → Frame → Dialogue β}
    (h : d.Propagates) (hf : ∀ a frame, (f a frame).Propagates) : (d.bind f).Propagates := by
  induction h with
  | @done result frame =>
      cases result with
      | ok a => exact hf a frame
      | error failure => exact .done
  | @ask r next refused accepted ih =>
      refine .ask ?_ ih
      intro reason
      rw [refused reason]
      rfl

namespace Gen.Propagates

theorem bind {m : Gen α} {k : α → Gen β} (h : m.Propagates) (hk : ∀ a, (k a).Propagates) :
    (m >>= k).Propagates :=
  fun S f => (h S f).bind fun a frame => hk a S frame

theorem seq {m : Gen α} {k : Gen β} (h : m.Propagates) (hk : k.Propagates) :
    (m >>= fun _ => k).Propagates :=
  h.bind fun _ => hk

theorem pure (a : α) : (Gen.pure a).Propagates := fun _ _ => .done

theorem fail (failure : Failure) : (Gen.fail failure : Gen α).Propagates := fun _ _ => .done

theorem unsupported (construct : Construct) : (Gen.unsupported construct : Gen α).Propagates :=
  fail _

theorem ofExcept (x : Except Failure α) : (Gen.ofExcept x).Propagates := by
  cases x with
  | ok a => exact pure a
  | error failure => exact fail failure

theorem setting : Gen.setting.Propagates := fun _ _ => .done

theorem frame : Gen.frame.Propagates := fun _ _ => .done

theorem setFrame (next : Frame) : (Gen.setFrame next).Propagates := fun _ _ => .done

theorem request (action : Action) : (Gen.request action).Propagates :=
  fun _ _ => .ask (fun _ => rfl) .done

-- ============================================================================
-- Code, units, scopes and slots
-- ============================================================================

theorem code (c : Code) : (Gen.code c).Propagates := request _

theorem instr (i : Instr) : (Gen.instr i).Propagates := code _

theorem instrs (is : List Instr) : (Gen.instrs is).Propagates := by
  induction is with
  | nil => exact pure ()
  | cons i rest ih => exact (instr i).seq ih

theorem declareLabel (l : Label) : (Gen.declareLabel l).Propagates := code _

theorem emit (e : Emission) : (Gen.emit e).Propagates := request _

theorem report (word text name : String) : (Gen.report word text name).Propagates := by
  refine setting.bind fun s => ?_
  dsimp only
  split
  · exact request _
  · exact pure ()

theorem openUnit (kind : UnitKind) (name : String) : (Gen.openUnit kind name).Propagates :=
  (request _).seq (report _ _ _)

theorem closeUnit : Gen.closeUnit.Propagates := request _

theorem activeScope : Gen.activeScope.Propagates := frame.bind fun f => pure f.activeScope

theorem enterScope (kind : ScopeKind) (name : String) : (Gen.enterScope kind name).Propagates := by
  refine frame.bind fun f => setting.bind fun s => ?_
  cases s.symbols.childScope? kind name with
  | some id => exact setFrame _
  | none => exact fail _

theorem leaveScope : Gen.leaveScope.Propagates := by
  refine frame.bind fun f => ?_
  cases f.entered with
  | nil => exact fail _
  | cons id rest => exact setFrame _

/-- A question about the active scope asks nothing of the output. -/
theorem ofScope (answer : Setting → ScopeId → Except Failure α) :
    (do
      let s ← Gen.setting
      Gen.ofExcept (answer s (← Gen.activeScope)) : Gen α).Propagates :=
  setting.bind fun s => activeScope.bind fun id => ofExcept (answer s id)

theorem lookupFunction (name : String) : (Gen.lookupFunction name).Propagates := ofScope _

theorem lookupStruct (name : String) : (Gen.lookupStruct name).Propagates := ofScope _

theorem scope : Gen.scope.Propagates := ofScope _

theorem typeOf (e : Expr) : (Gen.typeOf e).Propagates := ofScope _

theorem beginMethod (params : List String) : (Gen.beginMethod params).Propagates :=
  (ofExcept _).bind fun _ => frame.bind fun _ => setFrame _

theorem takeSlot (take : SlotTable → Except Fault (Nat × SlotTable)) :
    (Gen.takeSlot take).Propagates :=
  frame.bind fun _ => (ofExcept _).bind fun _ => (setFrame _).seq (pure _)

theorem freshSlot : Gen.freshSlot.Propagates := takeSlot _

theorem slotOf (name : String) : (Gen.slotOf name).Propagates := by
  refine frame.bind fun f => ?_
  cases f.slots.get? name with
  | some slot => exact pure slot
  | none =>
      refine scope.bind fun s => ?_
      split
      · exact takeSlot _
      · exact takeSlot _
      · exact unsupported _
      · exact fail _

theorem freshLabel : Gen.freshLabel.Propagates :=
  frame.bind fun _ => (setFrame _).seq (pure _)

-- ============================================================================
-- Values
-- ============================================================================

theorem unbox (ty : Ty) : (Gen.unbox ty).Propagates := by
  cases ty with
  | int | bool => exact instr _
  | _ => exact unsupported _

theorem box (ty : Ty) : (Gen.box ty).Propagates := by
  cases ty with
  | int | bool => exact instr _
  | _ => exact unsupported _

theorem zeroValue (ty : Ty) : (Gen.zeroValue ty).Propagates := by
  cases ty with
  | int | bool => exact (instr _).seq (box _)
  | list element => exact instrs _
  | struct name =>
      refine (lookupStruct name).bind fun layout => ?_
      cases layout with
      | some layout => exact instrs _
      | none => exact fail _
  | fptr params result => exact instr _
  | void => exact unsupported _

theorem condition (negated : Branch) : (Gen.condition negated).Propagates :=
  freshLabel.bind fun _ => freshLabel.bind fun _ => (instr _).seq <| (instr _).seq <|
    (instr _).seq <| (declareLabel _).seq <| (instr _).seq <| (declareLabel _).seq (box _)

end Gen.Propagates

end

open Gen.Propagates

-- ============================================================================
-- Expressions
-- ============================================================================

namespace Expr

theorem propagates_lowerName (name : String) : (lowerName name).Propagates := by
  refine (lookupFunction name).bind fun found => ?_
  cases found with
  | some signature =>
      refine scope.bind fun s => ?_
      cases s.kind with
      | struct => exact unsupported _
      | _ => exact instrs _
  | none => exact (slotOf name).bind fun slot => instr _

theorem propagates_callResult (target : Expr) : (callResult target).Propagates := by
  refine (typeOf target).bind fun ty => ?_
  cases ty with
  | fptr params result => exact pure result
  | _ => exact unsupported _

theorem propagates_narrowResult (result : Ty) : (narrowResult result).Propagates := by
  unfold narrowResult
  cases result.className? with
  | some name => exact instr _
  | none => exact instr _

mutual

theorem propagates_lower : ∀ e : Expr, e.lower.Propagates
  | .int value => (instr _).seq (box _)
  | .bool value => (instr _).seq (box _)
  | .ident name => propagates_lowerName name
  | .group inner => propagates_lower inner
  | .binary (.arith op) lhs rhs =>
    (propagates_lower lhs).seq <| (unbox _).seq <| (propagates_lower rhs).seq <|
      (unbox _).seq <| (instr _).seq (box _)
  | .binary (.order op) lhs rhs =>
    (propagates_lower lhs).seq <| (unbox _).seq <| (propagates_lower rhs).seq <|
      (unbox _).seq (condition _)
  | .binary (.logic op) lhs rhs =>
    freshLabel.bind fun _ => freshLabel.bind fun _ => (propagates_lower lhs).seq <|
      (unbox _).seq <| (instr _).seq <| (propagates_lower rhs).seq <| (unbox _).seq <|
      (instr _).seq <| (declareLabel _).seq <| (instr _).seq <| (declareLabel _).seq (box _)
  | .binary .equal lhs rhs => by
    have hlhs := propagates_lower lhs
    have hrhs := propagates_lower rhs
    rw [lower]
    refine (typeOf lhs).bind fun ty => ?_
    cases ty with
    | int | bool =>
        exact hlhs.seq <| (unbox _).seq <| hrhs.seq <| (unbox _).seq (condition _)
    | list | fptr => exact hlhs.seq <| hrhs.seq (condition _)
    | _ => exact unsupported _
  | .unary .not operand =>
    (propagates_lower operand).seq <| (unbox _).seq <| (instr _).seq <| (instr _).seq (box _)
  | .unary .neg operand =>
    (propagates_lower operand).seq <| (unbox _).seq <| (instr _).seq (box _)
  | .index list position => by
    have hlist := propagates_lower list
    have hposition := propagates_lower position
    rw [lower]
    refine (typeOf _).bind fun ty => ?_
    cases ty.className? with
    | none => exact unsupported _
    | some name =>
        exact hlist.seq <| hposition.seq <| (unbox _).seq <| (instr _).seq (instr _)
  | .append list element =>
    (propagates_lower list).seq <| (instr _).seq <| (propagates_lower element).seq (instr _)
  | .size list => (propagates_lower list).seq <| (instr _).seq (box _)
  | .call target args =>
    (propagates_callResult target).bind fun result => (propagates_lower target).seq <|
      (instrs _).seq <| (propagates_lowerArgs args).seq <| (instr _).seq
      (propagates_narrowResult result)
  | .field _ name => unsupported _

theorem propagates_lowerArgs : ∀ args : List Expr, (lowerArgs args).Propagates
  | [] => pure ()
  | arg :: rest => by
    have harg := propagates_lower arg
    have hrest : (do
        Gen.instr (.invoke .arrayListAdd)
        Gen.instr .pop
        lowerArgs rest : Gen Unit).Propagates :=
      (instr _).seq <| (instr _).seq (propagates_lowerArgs rest)
    rw [lowerArgs]
    refine (instr _).seq <| (typeOf arg).bind fun ty => ?_
    cases ty with
    | list element => exact (instrs _).seq <| harg.seq <| (instr _).seq hrest
    | _ => exact harg.seq hrest

end

end Expr

-- ============================================================================
-- Statements
-- ============================================================================

namespace Stmt

theorem propagates_comment (s : Stmt) : s.comment.Propagates := by
  refine setting.bind fun S => ?_
  dsimp only
  split
  · exact pure ()
  · split
    · exact emit _
    · exact pure ()

theorem propagates_store (name : String) : (store name).Propagates :=
  (slotOf name).bind fun _ => instr _

theorem propagates_dropResult (ty : Ty) : (dropResult ty).Propagates := by
  unfold dropResult
  split
  · exact pure ()
  · exact instr _
  · exact pure ()

theorem propagates_lowerDisplay (value : Expr) : (lowerDisplay value).Propagates := by
  refine (typeOf value).bind fun ty => ?_
  cases ty with
  | int | bool =>
      exact (instr _).seq <| value.propagates_lower.seq <| (unbox _).seq (instr _)
  | _ => exact unsupported _

theorem propagates_lowerAssign (value target : Expr) : (lowerAssign value target).Propagates := by
  cases target with
  | ident name => exact value.propagates_lower.seq (propagates_store name)
  | _ => exact setting.bind fun _ => unsupported _

mutual

theorem propagates_lower : ∀ s : Stmt, s.lower.Propagates
  | .block body => propagates_lowerAll body
  | .declare name ty (some e) =>
    (propagates_comment _).seq <| e.propagates_lower.seq (propagates_store name)
  | .declare name ty none =>
    (propagates_comment _).seq <| (zeroValue ty).seq (propagates_store name)
  | .assign target value => (propagates_comment _).seq (propagates_lowerAssign value target)
  | .cond test positive negative =>
    (propagates_comment _).seq <| freshLabel.bind fun _ => freshLabel.bind fun _ =>
      test.propagates_lower.seq <| (unbox _).seq <| (instr _).seq <|
      (propagates_lower positive).seq <| (instr _).seq <| (declareLabel _).seq <|
      (instr _).seq <| (propagates_lowerOption negative).seq <| (declareLabel _).seq (instr _)
  | .loop count body =>
    (propagates_comment _).seq <| freshSlot.bind fun _ => freshLabel.bind fun _ =>
      freshLabel.bind fun _ => count.propagates_lower.seq <| (unbox _).seq <| (instr _).seq <|
      (instr _).seq <| (declareLabel _).seq <| (propagates_lower body).seq <| (instr _).seq <|
      (declareLabel _).seq <| (instr _).seq (instr _)
  | .call target args =>
    (propagates_comment _).seq <| (typeOf target).bind fun ty =>
      (Expr.propagates_lower (.call target args)).seq (propagates_dropResult ty)
  | .ret none => (propagates_comment _).seq (instr _)
  | .ret (some value) => by
    rw [lower]
    refine (propagates_comment _).seq <| (typeOf value).bind fun ty =>
      value.propagates_lower.seq ?_
    split
    · exact instr _
    · exact instr _
  | .display value => (propagates_comment _).seq (propagates_lowerDisplay value)
  | .append list element =>
    (propagates_comment _).seq <| (Expr.propagates_lower (.append list element)).seq (instr _)
  | .size list => (propagates_comment _).seq <| (Expr.propagates_lower (.size list)).seq (instr _)

theorem propagates_lowerOption : ∀ s : Option Stmt, (lowerOption s).Propagates
  | none => pure ()
  | some s => propagates_lower s

theorem propagates_lowerAll : ∀ body : List Stmt, (lowerAll body).Propagates
  | [] => pure ()
  | s :: rest => (propagates_lower s).seq (propagates_lowerAll rest)

end

end Stmt

-- ============================================================================
-- Definitions and programs
-- ============================================================================

theorem propagates_beginConstructor : beginConstructor.Propagates :=
  (beginMethod []).seq <| (code _).seq (instrs _)

theorem FieldDef.propagates_initial (field : FieldDef) : field.initial.Propagates := by
  unfold initial
  split
  · exact Expr.propagates_lower _
  · exact instr _
  · exact zeroValue _

namespace StructDef

theorem propagates_declareFields (fields : List FieldDef) : (declareFields fields).Propagates := by
  induction fields with
  | nil => exact pure ()
  | cons field rest ih => exact (code _).seq ih

theorem propagates_initFields (className : String) (fields : List FieldDef) :
    (initFields className fields).Propagates := by
  induction fields with
  | nil => exact pure ()
  | cons field rest ih =>
      exact (instr _).seq <| field.propagates_initial.seq <| (instr _).seq ih

theorem propagates_lower (s : StructDef) : s.lower.Propagates := by
  refine (report _ _ _).seq ?_
  split
  · exact unsupported _
  · exact (enterScope _ _).seq <| (openUnit _ _).seq <| (code _).seq <|
      (propagates_declareFields _).seq <| propagates_beginConstructor.seq <|
      (propagates_initFields _ _).seq <| (instr _).seq <| (code _).seq <|
      closeUnit.seq leaveScope

end StructDef

namespace FunctionDef

theorem propagates_lower (fn : FunctionDef) : fn.lower.Propagates := by
  refine (report _ _ _).seq <| (enterScope _ _).seq <| (lookupFunction _).bind fun found => ?_
  cases found with
  | none => exact fail _
  | some signature =>
      have hend : (do
          Gen.code .endMethod
          Gen.leaveScope : Gen Unit).Propagates := (code _).seq leaveScope
      refine (beginMethod _).seq <| (code _).seq <| (Stmt.propagates_lowerAll _).seq ?_
      dsimp only
      split
      · exact (instr _).seq hend
      · exact hend

theorem propagates_lowerAll (functions : List FunctionDef) : (lowerAll functions).Propagates := by
  induction functions with
  | nil => exact pure ()
  | cons fn rest ih => exact fn.propagates_lower.seq ih

end FunctionDef

theorem propagates_lowerEntry (body : List Stmt) (functions : List FunctionDef) :
    (lowerEntry body functions).Propagates :=
  (report _ _ _).seq <| (openUnit _ _).seq <| (code _).seq <| (code _).seq <| (code _).seq <|
    (enterScope _ _).seq <| propagates_beginConstructor.seq <|
    (Stmt.propagates_lowerAll body).seq <| (instr _).seq <| (code _).seq <| leaveScope.seq <|
    (FunctionDef.propagates_lowerAll functions).seq closeUnit

namespace Program

theorem propagates_lowerStructs (structs : List StructDef) : (lowerStructs structs).Propagates := by
  induction structs with
  | nil => exact pure ()
  | cons s rest ih => exact s.propagates_lower.seq ih

/-- Nothing that the output refuses is passed over in the lowering of a program. -/
theorem propagates_lower (program : Program) : program.lower.Propagates :=
  (propagates_lowerStructs _).seq (propagates_lowerEntry _ _)

end Program

end JasminGen
