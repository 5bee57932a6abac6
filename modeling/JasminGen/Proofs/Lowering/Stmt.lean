/-
  JasminGen.Proofs.Lowering.Stmt

  The code of statements as a relation, over that of expressions. Comments are no code,
  so debugging makes no difference to it.

  Main definition: `StmtLowered`. Main result: `Stmt.lower_lowered`, every successful
  lowering follows the rules.
-/

import JasminGen.Proofs.Lowering.Expr

namespace JasminGen

open Gen

-- ============================================================================
-- Zero values and printing
-- ============================================================================

/-- The instructions that push the value a variable of the type starts with. -/
inductive ZeroCode (S : Setting) (id : ScopeId) : Ty → List Instr → Prop where
  | int : ZeroCode S id .int [.iconst0, .invoke .integerValueOf]
  | bool : ZeroCode S id .bool [.iconst0, .invoke .booleanValueOf]
  | list {element : Ty} :
      ZeroCode S id (.list element) [.new listClass, .dup, .invoke .listInit]
  | struct {name : String} {layout : Layout} :
      S.symbols.lookupStruct id name = .ok (some layout) →
      ZeroCode S id (.struct name)
        [.new layout.name, .dup, .invoke (.constructor layout.name)]
  | fptr {params : List Ty} {result : Ty} : ZeroCode S id (.fptr params result) [.aconstNull]

theorem Gen.zeroCode_of_emits {ty : Ty} {S : Setting} {f f' : Frame} {u : Unit}
    {acts : List Action} (h : Emits (zeroValue ty) S f u acts f') :
    ∃ is, ZeroCode S f.activeScope ty is ∧ acts = is.map Action.instr ∧ f' = f := by
  cases ty with
  | int =>
      simp only [zeroValue, box, emits_instr_bind, emits_instr] at h
      obtain ⟨_, rfl, rfl, rfl⟩ := h
      exact ⟨_, .int, rfl, rfl⟩
  | bool =>
      simp only [zeroValue, box, emits_instr_bind, emits_instr] at h
      obtain ⟨_, rfl, rfl, rfl⟩ := h
      exact ⟨_, .bool, rfl, rfl⟩
  | void => exact (emits_unsupported.mp h).elim
  | struct name =>
      rw [zeroValue, emits_lookupStruct_bind] at h
      obtain ⟨found, hfound, h⟩ := h
      cases found with
      | none => exact (emits_fail.mp h).elim
      | some layout =>
          obtain ⟨rfl, rfl⟩ := emits_instrs.mp h
          exact ⟨_, .struct hfound, rfl, rfl⟩
  | list element =>
      obtain ⟨rfl, rfl⟩ := emits_instrs.mp h
      exact ⟨_, .list, rfl, rfl⟩
  | fptr params result =>
      obtain ⟨rfl, rfl⟩ := emits_instr.mp h
      exact ⟨_, .fptr, rfl, rfl⟩

/-- The method that prints a primitive value of the type. -/
def Ty.printer? : Ty → Option Method
  | .int => some .printlnInt
  | .bool => some .printlnBool
  | _ => none

/-- The instructions that drop the result of a call to a value of the type. -/
def dropping : Ty → List Instr
  | .fptr _ .void => []
  | .fptr _ _ => [.pop]
  | _ => []

theorem Stmt.emits_dropResult {ty : Ty} {S : Setting} {f f' : Frame} {u : Unit}
    {acts : List Action} :
    Emits (dropResult ty) S f u acts f' ↔ acts = (dropping ty).map Action.instr ∧ f' = f := by
  unfold dropResult dropping
  split <;> simp [emits_pure, emits_instr]

-- ============================================================================
-- The rules
-- ============================================================================

/-- What is lowered: one statement, or several in a row. -/
inductive StmtTask where
  | one (s : Stmt)
  | many (ss : List Stmt)

/-- `StmtLowered S t f parts f'`: in the setting `S` and the frame `f`, the task `t` is
    lowered to the code `parts`, and `f'` is the frame after that. -/
inductive StmtLowered (S : Setting) : StmtTask → Frame → List Fragment → Frame → Prop where
  | block {f f' : Frame} {body : List Stmt} {p : List Fragment} :
      StmtLowered S (.many body) f p f' → StmtLowered S (.one (.block body)) f p f'
  | declare {f f₁ f' : Frame} {name : String} {ty : Ty} {e : Expr} {p : List Fragment}
      {slot : Nat} :
      ExprLowered S (.one e) f p f₁ → SlotOf S f₁ name slot f' →
      StmtLowered S (.one (.declare name ty (some e))) f [.expr e p, .instr (.astore slot)] f'
  | declareZero {f f' : Frame} {name : String} {ty : Ty} {is : List Instr} {slot : Nat} :
      ZeroCode S f.activeScope ty is → SlotOf S f name slot f' →
      StmtLowered S (.one (.declare name ty none)) f
        (is.map Fragment.instr ++ [.instr (.astore slot)]) f'
  | assign {f f₁ f' : Frame} {name : String} {e : Expr} {p : List Fragment} {slot : Nat} :
      ExprLowered S (.one e) f p f₁ → SlotOf S f₁ name slot f' →
      StmtLowered S (.one (.assign (.ident name) e)) f [.expr e p, .instr (.astore slot)] f'
  | cond {f f₁ f₂ f' : Frame} {test : Expr} {positive : Stmt} {negative : Option Stmt}
      {pt pp pn : List Fragment} :
      ExprLowered S (.one test) f.afterPair pt f₁ →
      StmtLowered S (.one positive) f₁ pp f₂ →
      StmtLowered S (.many negative.toList) f₂ pn f' →
      StmtLowered S (.one (.cond test positive negative)) f
        ([.expr test pt, .instr (.invoke .booleanBooleanValue),
          .instr (.branch .ifeq f.nextLabel), .stmt positive pp,
          .instr (.goto f.nextLabel.next), .label f.nextLabel, .instr .nop] ++ pn ++
          [.label f.nextLabel.next, .instr .nop]) f'
  | loop {f f₁ f' : Frame} {count : Expr} {body : Stmt} {pc pb : List Fragment} :
      f.slots.next < slotLimit →
      ExprLowered S (.one count) f.afterSlot.afterPair pc f₁ →
      StmtLowered S (.one body) f₁ pb f' →
      StmtLowered S (.one (.loop count body)) f
        [.expr count pc, .instr (.invoke .integerIntValue), .instr (.istore f.slots.next),
          .instr (.goto f.nextLabel.next), .label f.nextLabel, .stmt body pb,
          .instr (.decrement f.slots.next), .label f.nextLabel.next,
          .instr (.iload f.slots.next), .instr (.branch .ifgt f.nextLabel)] f'
  | call {f f' : Frame} {target : Expr} {args : List Expr} {p : List Fragment} {ty : Ty} :
      S.oracle f.activeScope target = .ok ty →
      ExprLowered S (.one (.call target args)) f p f' →
      StmtLowered S (.one (.call target args)) f
        (.expr (.call target args) p :: (dropping ty).map Fragment.instr) f'
  | ret {f : Frame} : StmtLowered S (.one (.ret none)) f [.instr .ret] f
  | retValue {f f' : Frame} {e : Expr} {p : List Fragment} {ty : Ty} :
      S.oracle f.activeScope e = .ok ty → ExprLowered S (.one e) f p f' →
      StmtLowered S (.one (.ret (some e))) f
        [.expr e p, .instr (if ty.isVoid then .ret else .areturn)] f'
  | display {f f' : Frame} {e : Expr} {p : List Fragment} {ty : Ty} {unboxer printer : Method} :
      S.oracle f.activeScope e = .ok ty → ty.unboxer? = some unboxer →
      ty.printer? = some printer → ExprLowered S (.one e) f p f' →
      StmtLowered S (.one (.display e)) f
        [.instr .getSystemOut, .expr e p, .instr (.invoke unboxer), .instr (.invoke printer)] f'
  | append {f f' : Frame} {l r : Expr} {p : List Fragment} :
      ExprLowered S (.one (.append l r)) f p f' →
      StmtLowered S (.one (.append l r)) f [.expr (.append l r) p, .instr .pop] f'
  | size {f f' : Frame} {e : Expr} {p : List Fragment} :
      ExprLowered S (.one (.size e)) f p f' →
      StmtLowered S (.one (.size e)) f [.expr (.size e) p, .instr .pop] f'
  | nil {f : Frame} : StmtLowered S (.many []) f [] f
  | cons {f f₁ f' : Frame} {s : Stmt} {rest : List Stmt} {p ps : List Fragment} :
      StmtLowered S (.one s) f p f₁ → StmtLowered S (.many rest) f₁ ps f' →
      StmtLowered S (.many (s :: rest)) f (.stmt s p :: ps) f'

/-- Lowering a statement leaves the entered scopes alone. -/
theorem StmtLowered.entered {S : Setting} {t : StmtTask} {f f' : Frame} {parts : List Fragment}
    (h : StmtLowered S t f parts f') : f'.entered = f.entered := by
  induction h with
  | declare he hs => rw [hs.entered, he.entered]
  | declareZero _ hs => exact hs.entered
  | assign he hs => rw [hs.entered, he.entered]
  | cond ht _ _ ihp ihn => rw [ihn, ihp, ht.entered, Frame.afterPair_entered]
  | loop _ hc _ ihb => rw [ihb, hc.entered, Frame.afterPair_entered, Frame.afterSlot_entered]
  | call _ hc => exact hc.entered
  | retValue _ he => exact he.entered
  | display _ _ _ he => exact he.entered
  | append he => exact he.entered
  | size he => exact he.entered
  | block _ ih => exact ih
  | cons _ _ ih ihs => rw [ihs, ih]
  | ret => rfl
  | nil => rfl

theorem StmtLowered.activeScope {S : Setting} {t : StmtTask} {f f' : Frame} {parts : List Fragment}
    (h : StmtLowered S t f parts f') : f'.activeScope = f.activeScope :=
  Frame.activeScope_congr h.entered

-- ============================================================================
-- Code among actions
-- ============================================================================

/-- An action that writes code or a comment. -/
def Action.InBody (action : Action) : Prop :=
  (∃ c, action = .code c) ∨ ∃ t, action = .emission (.comment t)

/-- Actions inside of a method whose code is `code`. -/
structure Writes (acts : List Action) (code : List Code) : Prop where
  code : codesOf acts = code
  inBody : ∀ action ∈ acts, action.InBody

namespace Writes

theorem nil : Writes [] [] :=
  ⟨rfl, by simp⟩

theorem ofCode (code : List Code) : Writes (code.map Action.code) code := by
  refine ⟨?_, ?_⟩
  · rw [codesOf, List.filterMap_map]
    exact List.filterMap_some
  · intro action h
    obtain ⟨c, -, rfl⟩ := List.mem_map.mp h
    exact .inl ⟨c, rfl⟩

theorem ofInstrs (is : List Instr) : Writes (is.map Action.instr) (is.map Code.instr) := by
  have h := ofCode (is.map Code.instr)
  rwa [List.map_map] at h

theorem append {acts acts' : List Action} {code code' : List Code} (h : Writes acts code)
    (h' : Writes acts' code') : Writes (acts ++ acts') (code ++ code') := by
  refine ⟨?_, ?_⟩
  · rw [codesOf, List.filterMap_append, ← codesOf, ← codesOf, h.code, h'.code]
  · intro action ha
    rcases List.mem_append.mp ha with ha | ha
    · exact h.inBody action ha
    · exact h'.inBody action ha

theorem cons {acts : List Action} {c : Code} {code : List Code} (h : Writes acts code) :
    Writes (.code c :: acts) (c :: code) :=
  append (ofCode [c]) h

theorem comment {acts : List Action} {code : List Code} {t : String} (h : Writes acts code) :
    Writes (.emission (.comment t) :: acts) code := by
  refine ⟨h.code, ?_⟩
  intro action ha
  rcases List.mem_cons.mp ha with rfl | ha
  · exact .inr ⟨t, rfl⟩
  · exact h.inBody action ha

end Writes

-- ============================================================================
-- Lowering follows the rules
-- ============================================================================

open Fragment (GenuineAll Genuine)

namespace Stmt

variable {S : Setting}

theorem emits_comment {s : Stmt} {f f' : Frame} {u : Unit} {acts : List Action}
    (h : Emits s.comment S f u acts f') : f' = f ∧ Writes acts [] := by
  rw [comment, emits_setting_bind] at h
  split at h
  · obtain ⟨-, rfl, rfl⟩ := emits_pure.mp h
    exact ⟨rfl, .nil⟩
  · dsimp only at h
    split at h
    · obtain ⟨rfl, rfl⟩ := emits_request.mp h
      exact ⟨rfl, .comment .nil⟩
    · obtain ⟨-, rfl, rfl⟩ := emits_pure.mp h
      exact ⟨rfl, .nil⟩

/-- The comment before a statement does not show in its code. -/
theorem emits_comment_bind {β : Type} {s : Stmt} {k : Unit → Gen β} {b : β} {f f' : Frame}
    {acts : List Action} (h : Emits (s.comment >>= k) S f b acts f') :
    ∃ rest, Emits (k ()) S f b rest f' ∧ ∀ code, Writes rest code → Writes acts code := by
  rw [emits_bind] at h
  obtain ⟨_, first, _, rest, hc, rfl, hk⟩ := h
  obtain ⟨rfl, hw⟩ := emits_comment hc
  exact ⟨rest, hk, fun code hr => by simpa using hw.append hr⟩

/-- The code of an expression that stands in a statement, and the rest. -/
theorem emits_expr_bind {β : Type} {e : Expr} {k : Unit → Gen β} {b : β} {f f' : Frame}
    {acts : List Action} (h : Emits (e.lower >>= k) S f b acts f') :
    ∃ parts f₁ first rest, ExprLowered S (.one e) f parts f₁ ∧
      (Fragment.expr e parts).Genuine S ∧ Writes first (Fragment.codeAll parts) ∧
      acts = first ++ rest ∧ Emits (k ()) S f₁ b rest f' := by
  obtain ⟨parts, f₁, rest, hparts, hgenuine, rfl, hk⟩ := Expr.emits_operand_bind e.lower_lowered h
  exact ⟨parts, f₁, _, rest, hparts, hgenuine, .ofCode _, rfl, hk⟩

theorem emits_store {name : String} {f f' : Frame} {u : Unit} {acts : List Action} :
    Emits (store name) S f u acts f' ↔
      ∃ slot, SlotOf S f name slot f' ∧ acts = [.instr (.astore slot)] := by
  simp only [store, emits_slotOf_bind, emits_instr]
  constructor
  · rintro ⟨slot, _, hs, rfl, rfl⟩
    exact ⟨slot, hs, rfl⟩
  · rintro ⟨slot, hs, rfl⟩
    exact ⟨slot, f', hs, rfl, rfl⟩

theorem lowerDisplay_lowered {e : Expr} {f f' : Frame} {u : Unit} {acts : List Action}
    (h : Emits (lowerDisplay e) S f u acts f') :
    ∃ parts, StmtLowered S (.one (.display e)) f parts f' ∧ GenuineAll S parts ∧
      Writes acts (Fragment.codeAll parts) := by
  rw [lowerDisplay, emits_typeOf_bind] at h
  obtain ⟨ty, hty, h⟩ := h
  have printed : ∀ unboxer printer, ty.unboxer? = some unboxer → ty.printer? = some printer →
      Emits (do
        instr .getSystemOut
        e.lower
        instr (.invoke unboxer)
        instr (.invoke printer)) S f u acts f' →
      ∃ parts, StmtLowered S (.one (.display e)) f parts f' ∧ GenuineAll S parts ∧
        Writes acts (Fragment.codeAll parts) := by
    clear h
    intro unboxer printer hu hp h
    rw [emits_instr_bind] at h
    obtain ⟨_, rfl, h⟩ := h
    obtain ⟨p, f₁, _, _, hpe, gp, hw, rfl, hrest⟩ := emits_expr_bind h
    simp only [emits_instr_bind, emits_instr] at hrest
    obtain ⟨_, rfl, rfl, rfl⟩ := hrest
    refine ⟨_, .display hty hu hp hpe, by simp [gp], ?_⟩
    simpa using (hw.append (.ofCode [.instr (.invoke unboxer), .instr (.invoke printer)])).cons
  cases ty with
  | int => exact printed _ _ rfl rfl h
  | bool => exact printed _ _ rfl rfl h
  | _ => exact (emits_unsupported.mp h).elim

mutual

/-- Every successful lowering of a statement follows the rules, and writes the code of
    its fragments, with comments between them. -/
theorem lower_lowered : ∀ (s : Stmt) {f f' : Frame} {u : Unit} {acts : List Action},
    Emits s.lower S f u acts f' →
      ∃ parts, StmtLowered S (.one s) f parts f' ∧ GenuineAll S parts ∧
        Writes acts (Fragment.codeAll parts)
  | .block body, f, f', u, acts, h => by
      rw [lower] at h
      obtain ⟨p, hp, gp, hw⟩ := lowerAll_lowered body h
      exact ⟨p, .block hp, gp, hw⟩
  | .declare name ty (some e), f, f', u, acts, h => by
      rw [lower] at h
      obtain ⟨_, h, hout⟩ := emits_comment_bind h
      obtain ⟨p, f₁, _, _, hp, gp, hw, rfl, hrest⟩ := emits_expr_bind h
      obtain ⟨slot, hs, rfl⟩ := emits_store.mp hrest
      refine ⟨_, .declare hp hs, by simp [gp], hout _ ?_⟩
      simpa using hw.append (.ofCode [.instr (.astore slot)])
  | .declare name ty none, f, f', u, acts, h => by
      rw [lower] at h
      obtain ⟨_, h, hout⟩ := emits_comment_bind h
      rw [emits_bind] at h
      obtain ⟨_, _, f₁, _, hzero, rfl, h⟩ := h
      obtain ⟨slot, hs, rfl⟩ := emits_store.mp h
      obtain ⟨is, hz, rfl, rfl⟩ := zeroCode_of_emits hzero
      refine ⟨_, .declareZero hz hs, by simp, hout _ ?_⟩
      simpa using (Writes.ofInstrs is).append (.ofCode [.instr (.astore slot)])
  | .assign target e, f, f', u, acts, h => by
      rw [lower] at h
      obtain ⟨_, h, hout⟩ := emits_comment_bind h
      cases target with
      | ident name =>
          rw [lowerAssign] at h
          obtain ⟨p, f₁, _, _, hp, gp, hw, rfl, hrest⟩ := emits_expr_bind h
          obtain ⟨slot, hs, rfl⟩ := emits_store.mp hrest
          refine ⟨_, .assign hp hs, by simp [gp], hout _ ?_⟩
          simpa using hw.append (.ofCode [.instr (.astore slot)])
      | _ =>
          rw [lowerAssign, emits_setting_bind] at h
          · exact (emits_unsupported.mp h).elim
          · simp
  | .cond test positive negative, f, f', u, acts, h => by
      rw [lower] at h
      obtain ⟨_, h, hout⟩ := emits_comment_bind h
      rw [emits_freshPair_bind] at h
      obtain ⟨pt, f₁, _, _, hpt, gt, hwt, rfl, hrest⟩ := emits_expr_bind h
      simp only [unbox, emits_instr_bind] at hrest
      obtain ⟨_, rfl, _, rfl, hrest⟩ := hrest
      rw [emits_bind] at hrest
      obtain ⟨_, _, f₂, _, hp, rfl, hrest⟩ := hrest
      simp only [emits_instr_bind, emits_declareLabel_bind] at hrest
      obtain ⟨_, rfl, _, rfl, _, rfl, hrest⟩ := hrest
      rw [emits_bind] at hrest
      obtain ⟨_, _, f₃, _, hn, rfl, hrest⟩ := hrest
      simp only [emits_declareLabel_bind, emits_instr] at hrest
      obtain ⟨_, rfl, rfl, rfl⟩ := hrest
      obtain ⟨pp, hpp, gp, hwp⟩ := lower_lowered positive hp
      obtain ⟨pn, hpn, gn, hwn⟩ := lowerOption_lowered negative hn
      refine ⟨_, .cond hpt hpp hpn, by simp [gt, gn, Genuine.stmt hp hwp.code gp], hout _ ?_⟩
      have hend := hwn.append (.ofCode [.label f.nextLabel.next, .instr .nop])
      simpa using hwt.append (hwp.append hend.cons.cons.cons).cons.cons
  | .loop count body, f, f', u, acts, h => by
      rw [lower] at h
      obtain ⟨_, h, hout⟩ := emits_comment_bind h
      rw [emits_freshSlot_bind, emits_freshPair_bind] at h
      obtain ⟨hlt, h⟩ := h
      obtain ⟨pc, f₁, _, _, hpc, gc, hwc, rfl, hrest⟩ := emits_expr_bind h
      simp only [unbox, emits_instr_bind, emits_declareLabel_bind] at hrest
      obtain ⟨_, rfl, _, rfl, _, rfl, _, rfl, hrest⟩ := hrest
      rw [emits_bind] at hrest
      obtain ⟨_, _, f₂, _, hb, rfl, hrest⟩ := hrest
      simp only [emits_instr_bind, emits_declareLabel_bind, emits_instr] at hrest
      obtain ⟨_, rfl, _, rfl, _, rfl, rfl, rfl⟩ := hrest
      obtain ⟨pb, hpb, gb, hwb⟩ := lower_lowered body hb
      refine ⟨_, .loop hlt hpc hpb, by simp [gc, Genuine.stmt hb hwb.code gb], hout _ ?_⟩
      have hend := hwb.append (.ofCode [.instr (.decrement f.slots.next),
        .label f.nextLabel.next, .instr (.iload f.slots.next),
        .instr (.branch .ifgt f.nextLabel)])
      simpa using hwc.append hend.cons.cons.cons.cons
  | .call target args, f, f', u, acts, h => by
      rw [lower] at h
      obtain ⟨_, h, hout⟩ := emits_comment_bind h
      rw [emits_typeOf_bind] at h
      obtain ⟨ty, hty, h⟩ := h
      obtain ⟨p, f₁, _, _, hp, gp, hw, rfl, hrest⟩ := emits_expr_bind h
      obtain ⟨rfl, rfl⟩ := emits_dropResult.mp hrest
      refine ⟨_, .call hty hp, by simp [gp], hout _ ?_⟩
      simpa using hw.append (.ofInstrs (dropping ty))
  | .ret none, f, f', u, acts, h => by
      rw [lower] at h
      obtain ⟨_, h, hout⟩ := emits_comment_bind h
      obtain ⟨rfl, rfl⟩ := emits_instr.mp h
      exact ⟨_, .ret, by simp, hout _ (by simpa using Writes.ofCode [.instr .ret])⟩
  | .ret (some e), f, f', u, acts, h => by
      rw [lower] at h
      obtain ⟨_, h, hout⟩ := emits_comment_bind h
      rw [emits_typeOf_bind] at h
      obtain ⟨ty, hty, h⟩ := h
      obtain ⟨p, f₁, _, last, hp, gp, hw, rfl, hrest⟩ := emits_expr_bind h
      replace hrest : Emits (instr (if ty.isVoid then .ret else .areturn)) S f₁ u last f' := by
        cases hv : ty.isVoid <;> simpa [hv] using hrest
      obtain ⟨rfl, rfl⟩ := emits_instr.mp hrest
      refine ⟨_, .retValue hty hp, by simp [gp], hout _ ?_⟩
      simpa using hw.append (.ofCode [.instr (if ty.isVoid then .ret else .areturn)])
  | .display e, f, f', u, acts, h => by
      rw [lower] at h
      obtain ⟨_, h, hout⟩ := emits_comment_bind h
      obtain ⟨p, hp, gp, hw⟩ := lowerDisplay_lowered h
      exact ⟨p, hp, gp, hout _ hw⟩
  | .append l r, f, f', u, acts, h => by
      rw [lower] at h
      obtain ⟨_, h, hout⟩ := emits_comment_bind h
      obtain ⟨p, f₁, _, _, hp, gp, hw, rfl, hrest⟩ := emits_expr_bind h
      obtain ⟨rfl, rfl⟩ := emits_instr.mp hrest
      refine ⟨_, .append hp, by simp [gp], hout _ ?_⟩
      simpa using hw.append (.ofCode [.instr .pop])
  | .size e, f, f', u, acts, h => by
      rw [lower] at h
      obtain ⟨_, h, hout⟩ := emits_comment_bind h
      obtain ⟨p, f₁, _, _, hp, gp, hw, rfl, hrest⟩ := emits_expr_bind h
      obtain ⟨rfl, rfl⟩ := emits_instr.mp hrest
      refine ⟨_, .size hp, by simp [gp], hout _ ?_⟩
      simpa using hw.append (.ofCode [.instr .pop])

/-- The same for a statement that may be missing. -/
theorem lowerOption_lowered : ∀ (s : Option Stmt) {f f' : Frame} {u : Unit}
    {acts : List Action}, Emits (lowerOption s) S f u acts f' →
      ∃ parts, StmtLowered S (.many s.toList) f parts f' ∧ GenuineAll S parts ∧
        Writes acts (Fragment.codeAll parts)
  | none, f, f', u, acts, h => by
      rw [lowerOption] at h
      obtain ⟨-, rfl, rfl⟩ := emits_pure.mp h
      exact ⟨_, .nil, by simp, by simpa using Writes.nil⟩
  | some s, f, f', u, acts, h => by
      rw [lowerOption] at h
      obtain ⟨p, hp, gp, hw⟩ := lower_lowered s h
      exact ⟨_, .cons hp .nil, by simp [Genuine.stmt h hw.code gp], by simpa using hw⟩

/-- The same for statements in a row. -/
theorem lowerAll_lowered : ∀ (ss : List Stmt) {f f' : Frame} {u : Unit} {acts : List Action},
    Emits (lowerAll ss) S f u acts f' →
      ∃ parts, StmtLowered S (.many ss) f parts f' ∧ GenuineAll S parts ∧
        Writes acts (Fragment.codeAll parts)
  | [], f, f', u, acts, h => by
      rw [lowerAll] at h
      obtain ⟨-, rfl, rfl⟩ := emits_pure.mp h
      exact ⟨_, .nil, by simp, by simpa using Writes.nil⟩
  | s :: rest, f, f', u, acts, h => by
      rw [lowerAll, emits_bind] at h
      obtain ⟨_, _, f₁, _, hs, rfl, h⟩ := h
      obtain ⟨p, hp, gp, hw⟩ := lower_lowered s hs
      obtain ⟨ps, hps, gs, hws⟩ := lowerAll_lowered rest h
      exact ⟨_, .cons hp hps, by simp [gs, Genuine.stmt hs hw.code gp],
        by simpa using hw.append hws⟩

end

end Stmt

end JasminGen
