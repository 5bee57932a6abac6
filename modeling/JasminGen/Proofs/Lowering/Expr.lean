/-
  JasminGen.Proofs.Lowering.Expr

  The code of expressions as a relation: one rule for each form of code that lowering
  an expression can give. Properties of that code are proved by induction on the
  rules, and the lowering itself is opened here only.

  Main definitions: `ExprLowered`, `Fragment.Genuine`. Main result:
  `Expr.lower_lowered`, every successful lowering follows the rules.
-/

import JasminGen.Proofs.Lowering.Emits
import JasminGen.Proofs.Lowering.Fragment

namespace JasminGen

open Gen

-- ============================================================================
-- Boxed values
-- ============================================================================

/-- The method that turns a wrapper of the type into its primitive value. -/
def Ty.unboxer? : Ty → Option Method
  | .int => some .integerIntValue
  | .bool => some .booleanBooleanValue
  | _ => none

theorem Ty.ne_void_of_unboxer? {ty : Ty} {m : Method} (h : ty.unboxer? = some m) :
    ty ≠ .void := by
  rintro rfl
  cases h

theorem Ty.ne_void_of_className? {ty : Ty} {name : String} (h : ty.className? = some name) :
    ty ≠ .void := by
  rintro rfl
  cases h

/-- The types whose values are compared by identity have values, and these are not unboxed. -/
theorem Ty.ne_of_reference {ty : Ty}
    (h : (∃ element, ty = .list element) ∨ ∃ params result, ty = .fptr params result) :
    ty ≠ .void ∧ ty ≠ .int ∧ ty ≠ .bool := by
  rcases h with ⟨element, rfl⟩ | ⟨params, result, rfl⟩
  · simp
  · simp

/-- The code that turns the two operands of a comparison into a boolean. -/
def conditionParts (negated : Branch) (otherwise after : Label) : List Fragment :=
  [.instr (.branch negated otherwise), .instr .iconst1, .instr (.goto after), .label otherwise,
    .instr .iconst0, .label after, .instr (.invoke .booleanValueOf)]

theorem Gen.emits_condition {negated : Branch} {S : Setting} {f f' : Frame} {u : Unit}
    {acts : List Action} :
    Emits (condition negated) S f u acts f' ↔
      acts = (Fragment.codeAll
        (conditionParts negated f.nextLabel f.nextLabel.next)).map Action.code ∧
      f' = f.afterPair := by
  simp only [condition, emits_freshPair_bind, emits_instr_bind, emits_declareLabel_bind, box,
    emits_instr]
  constructor
  · rintro ⟨_, rfl, _, rfl, _, rfl, _, rfl, _, rfl, _, rfl, rfl, rfl⟩
    exact ⟨by simp [conditionParts], rfl⟩
  · rintro ⟨rfl, rfl⟩
    exact ⟨_, by simp [conditionParts], _, rfl, _, rfl, _, rfl, _, rfl, _, rfl, rfl, rfl⟩

-- ============================================================================
-- The rules
-- ============================================================================

/-- What is lowered: an expression, or the arguments of a call. -/
inductive ExprTask where
  | one (e : Expr)
  | args (es : List Expr)

/-- The narrowing of the result of a call. -/
def narrowing (result : Ty) : Instr :=
  match result.className? with
  | some name => .checkcast name
  | none => .pop

/-- `ExprLowered S t f parts f'`: in the setting `S` and the frame `f`, the task `t` is
    lowered to the code `parts`, and `f'` is the frame after that. -/
inductive ExprLowered (S : Setting) : ExprTask → Frame → List Fragment → Frame → Prop where
  | int {f : Frame} {n : Int32} :
      ExprLowered S (.one (.int n)) f
        [.instr (.ldcInt n), .instr (.invoke .integerValueOf)] f
  | bool {f : Frame} {b : Bool} :
      ExprLowered S (.one (.bool b)) f
        [.instr (if b then .iconst1 else .iconst0), .instr (.invoke .booleanValueOf)] f
  | function {f : Frame} {name : String} {signature : Signature} {s : Scope} :
      S.symbols.lookupFunction f.activeScope name = .ok (some signature) →
      S.symbols.scope f.activeScope = .ok s → s.kind ≠ .struct →
      ExprLowered S (.one (.ident name)) f
        [.instr (.new fptrClass), .instr .dup, .instr (.aload receiverSlot),
          .instr (.ldcText name), .instr (.invoke .fptrInit)] f
  | «variable» {f f' : Frame} {name : String} {slot : Nat} :
      S.symbols.lookupFunction f.activeScope name = .ok none → SlotOf S f name slot f' →
      ExprLowered S (.one (.ident name)) f [.instr (.aload slot)] f'
  | group {f f' : Frame} {e : Expr} {p : List Fragment} :
      ExprLowered S (.one e) f p f' →
      ExprLowered S (.one (.group e)) f [.expr e p] f'
  | arith {f f₁ f' : Frame} {op : ArithOp} {l r : Expr} {pl pr : List Fragment} :
      ExprLowered S (.one l) f pl f₁ → ExprLowered S (.one r) f₁ pr f' →
      ExprLowered S (.one (.binary (.arith op) l r)) f
        [.expr l pl, .instr (.invoke .integerIntValue), .expr r pr,
          .instr (.invoke .integerIntValue), .instr op.instr,
          .instr (.invoke .integerValueOf)] f'
  | order {f f₁ f₂ : Frame} {op : OrderOp} {l r : Expr} {pl pr : List Fragment} :
      ExprLowered S (.one l) f pl f₁ → ExprLowered S (.one r) f₁ pr f₂ →
      ExprLowered S (.one (.binary (.order op) l r)) f
        ([.expr l pl, .instr (.invoke .integerIntValue), .expr r pr,
          .instr (.invoke .integerIntValue)] ++
          conditionParts op.negated f₂.nextLabel f₂.nextLabel.next) f₂.afterPair
  | logic {f f₁ f' : Frame} {op : LogicOp} {l r : Expr} {pl pr : List Fragment} :
      ExprLowered S (.one l) f.afterPair pl f₁ → ExprLowered S (.one r) f₁ pr f' →
      ExprLowered S (.one (.binary (.logic op) l r)) f
        [.expr l pl, .instr (.invoke .booleanBooleanValue),
          .instr (.branch op.skip f.nextLabel), .expr r pr,
          .instr (.invoke .booleanBooleanValue), .instr (.goto f.nextLabel.next),
          .label f.nextLabel, .instr op.decided, .label f.nextLabel.next,
          .instr (.invoke .booleanValueOf)] f'
  | equalValues {f f₁ f₂ : Frame} {l r : Expr} {pl pr : List Fragment} {ty : Ty} {m : Method} :
      S.oracle f.activeScope l = .ok ty → ty.unboxer? = some m →
      ExprLowered S (.one l) f pl f₁ → ExprLowered S (.one r) f₁ pr f₂ →
      ExprLowered S (.one (.binary .equal l r)) f
        ([.expr l pl, .instr (.invoke m), .expr r pr, .instr (.invoke m)] ++
          conditionParts .ifIcmpne f₂.nextLabel f₂.nextLabel.next) f₂.afterPair
  | equalReferences {f f₁ f₂ : Frame} {l r : Expr} {pl pr : List Fragment} {ty : Ty} :
      S.oracle f.activeScope l = .ok ty →
      (∃ element, ty = .list element) ∨ (∃ params result, ty = .fptr params result) →
      ExprLowered S (.one l) f pl f₁ → ExprLowered S (.one r) f₁ pr f₂ →
      ExprLowered S (.one (.binary .equal l r)) f
        ([.expr l pl, .expr r pr] ++
          conditionParts .ifAcmpne f₂.nextLabel f₂.nextLabel.next) f₂.afterPair
  | not {f f' : Frame} {e : Expr} {p : List Fragment} :
      ExprLowered S (.one e) f p f' →
      ExprLowered S (.one (.unary .not e)) f
        [.expr e p, .instr (.invoke .booleanBooleanValue), .instr .iconst1, .instr .ixor,
          .instr (.invoke .booleanValueOf)] f'
  | neg {f f' : Frame} {e : Expr} {p : List Fragment} :
      ExprLowered S (.one e) f p f' →
      ExprLowered S (.one (.unary .neg e)) f
        [.expr e p, .instr (.invoke .integerIntValue), .instr .ineg,
          .instr (.invoke .integerValueOf)] f'
  | index {f f₁ f' : Frame} {l r : Expr} {pl pr : List Fragment} {ty : Ty} {name : String} :
      S.oracle f.activeScope (.index l r) = .ok ty → ty.className? = some name →
      ExprLowered S (.one l) f pl f₁ → ExprLowered S (.one r) f₁ pr f' →
      ExprLowered S (.one (.index l r)) f
        [.expr l pl, .expr r pr, .instr (.invoke .integerIntValue),
          .instr (.invoke .listGetElement), .instr (.checkcast name)] f'
  | append {f f₁ f' : Frame} {l r : Expr} {pl pr : List Fragment} :
      ExprLowered S (.one l) f pl f₁ → ExprLowered S (.one r) f₁ pr f' →
      ExprLowered S (.one (.append l r)) f
        [.expr l pl, .instr .dup, .expr r pr, .instr (.invoke .listAddElement)] f'
  | size {f f' : Frame} {e : Expr} {p : List Fragment} :
      ExprLowered S (.one e) f p f' →
      ExprLowered S (.one (.size e)) f
        [.expr e p, .instr (.invoke .listGetSize), .instr (.invoke .integerValueOf)] f'
  | call {f f₁ f' : Frame} {target : Expr} {args : List Expr} {pt pa : List Fragment}
      {params : List Ty} {result : Ty} :
      S.oracle f.activeScope target = .ok (.fptr params result) →
      ExprLowered S (.one target) f pt f₁ → ExprLowered S (.args args) f₁ pa f' →
      ExprLowered S (.one (.call target args)) f
        ([.expr target pt, .instr (.new arrayListClass), .instr .dup,
          .instr (.invoke .arrayListInit)] ++ pa ++
          [.instr (.invoke .fptrInvoke), .instr (narrowing result)]) f'
  | argsNil {f : Frame} : ExprLowered S (.args []) f [] f
  | argsCopied {f f₁ f' : Frame} {arg : Expr} {rest : List Expr} {p pa : List Fragment}
      {element : Ty} :
      S.oracle f.activeScope arg = .ok (.list element) →
      ExprLowered S (.one arg) f p f₁ → ExprLowered S (.args rest) f₁ pa f' →
      ExprLowered S (.args (arg :: rest)) f
        ([.instr .dup, .instr (.new listClass), .instr .dup, .expr arg p,
          .instr (.invoke .listCopy), .instr (.invoke .arrayListAdd), .instr .pop] ++ pa) f'
  | argsPassed {f f₁ f' : Frame} {arg : Expr} {rest : List Expr} {p pa : List Fragment}
      {ty : Ty} :
      S.oracle f.activeScope arg = .ok ty → (∀ element, ty ≠ .list element) →
      ExprLowered S (.one arg) f p f₁ → ExprLowered S (.args rest) f₁ pa f' →
      ExprLowered S (.args (arg :: rest)) f
        ([.instr .dup, .expr arg p, .instr (.invoke .arrayListAdd), .instr .pop] ++ pa) f'

/-- Lowering an expression leaves the entered scopes alone. -/
theorem ExprLowered.entered {S : Setting} {t : ExprTask} {f f' : Frame} {parts : List Fragment}
    (h : ExprLowered S t f parts f') : f'.entered = f.entered := by
  induction h with
  | «variable» _ hs => exact hs.entered
  | _ => simp_all

theorem ExprLowered.activeScope {S : Setting} {t : ExprTask} {f f' : Frame}
    {parts : List Fragment} (h : ExprLowered S t f parts f') : f'.activeScope = f.activeScope :=
  Frame.activeScope_congr h.entered

theorem Expr.emits_narrowResult {result : Ty} {S : Setting} {f f' : Frame} {u : Unit}
    {acts : List Action} :
    Emits (narrowResult result) S f u acts f' ↔
      acts = [.instr (narrowing result)] ∧ f' = f := by
  unfold narrowResult narrowing
  cases result.className? <;> exact emits_instr

theorem Expr.emits_callResult_bind {β : Type} {target : Expr} {S : Setting} {f f' : Frame}
    {b : β} {acts : List Action} {k : Ty → Gen β} :
    Emits (callResult target >>= k) S f b acts f' ↔
      ∃ params result, S.oracle f.activeScope target = .ok (.fptr params result) ∧
        Emits (k result) S f b acts f' := by
  have h : ∀ ty first f₁, Emits (callResult target) S f ty first f₁ ↔
      (∃ params, S.oracle f.activeScope target = .ok (.fptr params ty)) ∧
        first = [] ∧ f₁ = f := by
    intro ty first f₁
    simp only [callResult, emits_typeOf_bind]
    constructor
    · rintro ⟨found, hfound, h⟩
      cases found with
      | fptr params result =>
          rw [emits_pure] at h
          obtain ⟨rfl, hfirst, hframe⟩ := h
          exact ⟨⟨params, hfound⟩, hfirst, hframe⟩
      | _ => exact (emits_unsupported.mp h).elim
    · rintro ⟨⟨params, hfound⟩, hfirst, hframe⟩
      exact ⟨_, hfound, emits_pure.mpr ⟨rfl, hfirst, hframe⟩⟩
  rw [emits_query_bind h]
  constructor
  · rintro ⟨result, ⟨params, ht⟩, hk⟩
    exact ⟨params, result, ht, hk⟩
  · rintro ⟨params, result, ht, hk⟩
    exact ⟨result, ⟨params, ht⟩, hk⟩

-- ============================================================================
-- Constructs and their code
-- ============================================================================

namespace Fragment

mutual

/-- The code of every construct in a fragment is what lowering the construct emits. -/
def Genuine (S : Setting) : Fragment → Prop
  | .instr _ | .label _ => True
  | .expr e parts =>
    (∃ f f', Emits e.lower S f () ((codeAll parts).map Action.code) f') ∧ GenuineAll S parts
  | .stmt s parts =>
    (∃ f acts f', Emits s.lower S f () acts f' ∧ codesOf acts = codeAll parts) ∧
      GenuineAll S parts

/-- The same for fragments in a row. -/
def GenuineAll (S : Setting) : List Fragment → Prop
  | [] => True
  | p :: rest => p.Genuine S ∧ GenuineAll S rest

end

section Simp

variable {S : Setting}

@[simp] theorem genuine_instr (i : Instr) : (instr i).Genuine S := by
  rw [Genuine]
  trivial

@[simp] theorem genuine_label (l : Label) : (label l).Genuine S := by
  rw [Genuine]
  trivial

@[simp] theorem genuineAll_nil : GenuineAll S [] := by
  rw [GenuineAll]
  trivial

@[simp] theorem genuineAll_cons {p : Fragment} {rest : List Fragment} :
    GenuineAll S (p :: rest) ↔ p.Genuine S ∧ GenuineAll S rest := by
  rw [GenuineAll]

@[simp] theorem genuineAll_append {ps qs : List Fragment} :
    GenuineAll S (ps ++ qs) ↔ GenuineAll S ps ∧ GenuineAll S qs := by
  induction ps with
  | nil => simp
  | cons p rest ih => simp [ih, and_assoc]

@[simp] theorem genuineAll_map_instr (is : List Instr) :
    GenuineAll S (is.map Fragment.instr) := by
  induction is with
  | nil => simp
  | cons i rest ih => simp [ih]

@[simp] theorem genuineAll_conditionParts (negated : Branch) (otherwise after : Label) :
    GenuineAll S (conditionParts negated otherwise after) := by
  simp [conditionParts]

theorem Genuine.expr {e : Expr} {f f' : Frame} {u : Unit} {parts : List Fragment}
    (h : Emits e.lower S f u ((codeAll parts).map Action.code) f') (hparts : GenuineAll S parts) :
    (Fragment.expr e parts).Genuine S := by
  rw [Genuine]
  exact ⟨⟨f, f', h⟩, hparts⟩

theorem Genuine.stmt {s : Stmt} {f f' : Frame} {u : Unit} {acts : List Action}
    {parts : List Fragment} (h : Emits s.lower S f u acts f')
    (hcode : codesOf acts = codeAll parts) (hparts : GenuineAll S parts) :
    (Fragment.stmt s parts).Genuine S := by
  rw [Genuine]
  exact ⟨⟨f, acts, f', h, hcode⟩, hparts⟩

end Simp

end Fragment

-- ============================================================================
-- Lowering follows the rules
-- ============================================================================

open Fragment (GenuineAll Genuine)

namespace Expr

variable {S : Setting}

/-- The code of an operand, where its lowering follows the rules, and the rest. -/
theorem emits_operand_bind {β : Type} {e : Expr} {k : Unit → Gen β} {b : β} {f f' : Frame}
    {acts : List Action}
    (hrules : ∀ {f f' : Frame} {u : Unit} {acts : List Action}, Emits e.lower S f u acts f' →
      ∃ parts, ExprLowered S (.one e) f parts f' ∧ GenuineAll S parts ∧
        acts = (Fragment.codeAll parts).map Action.code)
    (h : Emits (e.lower >>= k) S f b acts f') :
    ∃ parts f₁ rest, ExprLowered S (.one e) f parts f₁ ∧ (Fragment.expr e parts).Genuine S ∧
      acts = (Fragment.codeAll parts).map Action.code ++ rest ∧ Emits (k ()) S f₁ b rest f' := by
  rw [emits_bind] at h
  obtain ⟨_, _, f₁, rest, he, rfl, hk⟩ := h
  obtain ⟨parts, hparts, hgenuine, rfl⟩ := hrules he
  exact ⟨parts, f₁, rest, hparts, .expr he hgenuine, rfl, hk⟩

mutual

/-- Every successful lowering of an expression follows the rules, and writes the code
    of its fragments and nothing else. -/
theorem lower_lowered : ∀ (e : Expr) {f f' : Frame} {u : Unit} {acts : List Action},
    Emits e.lower S f u acts f' →
      ∃ parts, ExprLowered S (.one e) f parts f' ∧ GenuineAll S parts ∧
        acts = (Fragment.codeAll parts).map Action.code
  | .int n, f, f', u, acts, h => by
      simp only [lower, emits_instr_bind, box, emits_instr] at h
      obtain ⟨_, rfl, rfl, rfl⟩ := h
      exact ⟨_, .int, by simp, by simp⟩
  | .bool b, f, f', u, acts, h => by
      simp only [lower, emits_instr_bind, box, emits_instr] at h
      obtain ⟨_, rfl, rfl, rfl⟩ := h
      exact ⟨_, .bool, by simp, by simp⟩
  | .ident name, f, f', u, acts, h => by
      simp only [lower, lowerName, emits_lookupFunction_bind] at h
      obtain ⟨found, hfound, h⟩ := h
      cases found with
      | none =>
          simp only [emits_slotOf_bind, emits_instr] at h
          obtain ⟨slot, f₁, hslot, rfl, rfl⟩ := h
          exact ⟨_, .variable hfound hslot, by simp, by simp⟩
      | some signature =>
          simp only [emits_scope_bind] at h
          obtain ⟨s, hs, h⟩ := h
          split at h
          · exact (emits_unsupported.mp h).elim
          · next hk =>
              rw [emits_instrs] at h
              obtain ⟨rfl, rfl⟩ := h
              exact ⟨_, .function hfound hs (fun hstruct => hk hstruct), by simp, by simp⟩
  | .group e, f, f', u, acts, h => by
      simp only [lower] at h
      obtain ⟨p, hp, gp, rfl⟩ := lower_lowered e h
      exact ⟨_, .group hp, by simp [Genuine.expr h gp], by simp⟩
  | .binary (.arith op) l r, f, f', u, acts, h => by
      rw [lower] at h
      obtain ⟨pl, f₁, _, hl, gl, rfl, hrest⟩ := emits_operand_bind (lower_lowered l) h
      simp only [unbox, emits_instr_bind] at hrest
      obtain ⟨_, rfl, hrest⟩ := hrest
      obtain ⟨pr, f₂, _, hr, gr, rfl, hlast⟩ := emits_operand_bind (lower_lowered r) hrest
      simp only [box, emits_instr_bind, emits_instr] at hlast
      obtain ⟨_, rfl, _, rfl, rfl, rfl⟩ := hlast
      exact ⟨_, .arith hl hr, by simp [gl, gr], by simp⟩
  | .binary (.order op) l r, f, f', u, acts, h => by
      rw [lower] at h
      obtain ⟨pl, f₁, _, hl, gl, rfl, hrest⟩ := emits_operand_bind (lower_lowered l) h
      simp only [unbox, emits_instr_bind] at hrest
      obtain ⟨_, rfl, hrest⟩ := hrest
      obtain ⟨pr, f₂, _, hr, gr, rfl, hlast⟩ := emits_operand_bind (lower_lowered r) hrest
      simp only [emits_instr_bind, emits_condition] at hlast
      obtain ⟨_, rfl, rfl, rfl⟩ := hlast
      exact ⟨_, .order hl hr, by simp [gl, gr], by simp⟩
  | .binary (.logic op) l r, f, f', u, acts, h => by
      rw [lower, emits_freshPair_bind] at h
      obtain ⟨pl, f₁, _, hl, gl, rfl, hrest⟩ := emits_operand_bind (lower_lowered l) h
      simp only [unbox, emits_instr_bind] at hrest
      obtain ⟨_, rfl, _, rfl, hrest⟩ := hrest
      obtain ⟨pr, f₂, _, hr, gr, rfl, hlast⟩ := emits_operand_bind (lower_lowered r) hrest
      simp only [box, emits_instr_bind, emits_declareLabel_bind, emits_instr] at hlast
      obtain ⟨_, rfl, _, rfl, _, rfl, _, rfl, _, rfl, rfl, rfl⟩ := hlast
      exact ⟨_, .logic hl hr, by simp [gl, gr], by simp⟩
  | .binary .equal l r, f, f', u, acts, h => by
      rw [lower, emits_typeOf_bind] at h
      obtain ⟨ty, hty, h⟩ := h
      -- operands that are unboxed, and operands that are compared as they are
      have values : ∀ m, ty.unboxer? = some m →
          Emits (do l.lower; instr (.invoke m); r.lower; instr (.invoke m); condition .ifIcmpne)
            S f u acts f' →
          ∃ parts, ExprLowered S (.one (.binary .equal l r)) f parts f' ∧
            GenuineAll S parts ∧ acts = (Fragment.codeAll parts).map Action.code := by
        clear h
        intro m hm h
        obtain ⟨pl, f₁, _, hl, gl, rfl, hrest⟩ := emits_operand_bind (lower_lowered l) h
        rw [emits_instr_bind] at hrest
        obtain ⟨_, rfl, hrest⟩ := hrest
        obtain ⟨pr, f₂, _, hr, gr, rfl, hlast⟩ := emits_operand_bind (lower_lowered r) hrest
        simp only [emits_instr_bind, emits_condition] at hlast
        obtain ⟨_, rfl, rfl, rfl⟩ := hlast
        exact ⟨_, .equalValues hty hm hl hr, by simp [gl, gr], by simp⟩
      have references :
          (∃ element, ty = .list element) ∨ (∃ params result, ty = .fptr params result) →
          Emits (do l.lower; r.lower; condition .ifAcmpne) S f u acts f' →
          ∃ parts, ExprLowered S (.one (.binary .equal l r)) f parts f' ∧
            GenuineAll S parts ∧ acts = (Fragment.codeAll parts).map Action.code := by
        clear h values
        intro href h
        obtain ⟨pl, f₁, _, hl, gl, rfl, hrest⟩ := emits_operand_bind (lower_lowered l) h
        obtain ⟨pr, f₂, _, hr, gr, rfl, hlast⟩ := emits_operand_bind (lower_lowered r) hrest
        rw [emits_condition] at hlast
        obtain ⟨rfl, rfl⟩ := hlast
        exact ⟨_, .equalReferences hty href hl hr, by simp [gl, gr], by simp⟩
      cases ty with
      | int => exact values _ rfl h
      | bool => exact values _ rfl h
      | list element => exact references (.inl ⟨element, rfl⟩) h
      | fptr params result => exact references (.inr ⟨params, result, rfl⟩) h
      | void => exact (emits_unsupported.mp h).elim
      | struct name => exact (emits_unsupported.mp h).elim
  | .unary .not e, f, f', u, acts, h => by
      rw [lower] at h
      obtain ⟨p, f₁, _, he, ge, rfl, hrest⟩ := emits_operand_bind (lower_lowered e) h
      simp only [unbox, box, emits_instr_bind, emits_instr] at hrest
      obtain ⟨_, rfl, _, rfl, _, rfl, rfl, rfl⟩ := hrest
      exact ⟨_, .not he, by simp [ge], by simp⟩
  | .unary .neg e, f, f', u, acts, h => by
      rw [lower] at h
      obtain ⟨p, f₁, _, he, ge, rfl, hrest⟩ := emits_operand_bind (lower_lowered e) h
      simp only [unbox, box, emits_instr_bind, emits_instr] at hrest
      obtain ⟨_, rfl, _, rfl, rfl, rfl⟩ := hrest
      exact ⟨_, .neg he, by simp [ge], by simp⟩
  | .index l r, f, f', u, acts, h => by
      rw [lower, emits_typeOf_bind] at h
      obtain ⟨ty, hty, h⟩ := h
      cases hname : ty.className? with
      | none =>
          rw [hname] at h
          exact (emits_unsupported.mp h).elim
      | some name =>
          rw [hname] at h
          obtain ⟨pl, f₁, _, hl, gl, rfl, hrest⟩ := emits_operand_bind (lower_lowered l) h
          obtain ⟨pr, f₂, _, hr, gr, rfl, hlast⟩ := emits_operand_bind (lower_lowered r) hrest
          simp only [unbox, emits_instr_bind, emits_instr] at hlast
          obtain ⟨_, rfl, _, rfl, rfl, rfl⟩ := hlast
          exact ⟨_, .index hty hname hl hr, by simp [gl, gr], by simp⟩
  | .append l r, f, f', u, acts, h => by
      rw [lower] at h
      obtain ⟨pl, f₁, _, hl, gl, rfl, hrest⟩ := emits_operand_bind (lower_lowered l) h
      rw [emits_instr_bind] at hrest
      obtain ⟨_, rfl, hrest⟩ := hrest
      obtain ⟨pr, f₂, _, hr, gr, rfl, hlast⟩ := emits_operand_bind (lower_lowered r) hrest
      rw [emits_instr] at hlast
      obtain ⟨rfl, rfl⟩ := hlast
      exact ⟨_, .append hl hr, by simp [gl, gr], by simp⟩
  | .size e, f, f', u, acts, h => by
      rw [lower] at h
      obtain ⟨p, f₁, _, he, ge, rfl, hrest⟩ := emits_operand_bind (lower_lowered e) h
      simp only [box, emits_instr_bind, emits_instr] at hrest
      obtain ⟨_, rfl, rfl, rfl⟩ := hrest
      exact ⟨_, .size he, by simp [ge], by simp⟩
  | .call target args, f, f', u, acts, h => by
      rw [lower, emits_callResult_bind] at h
      obtain ⟨params, result, hty, h⟩ := h
      obtain ⟨pt, f₁, _, ht, gt, rfl, hrest⟩ := emits_operand_bind (lower_lowered target) h
      rw [emits_instrs_bind] at hrest
      obtain ⟨_, rfl, hrest⟩ := hrest
      rw [emits_bind] at hrest
      obtain ⟨_, _, f₂, _, ha, rfl, hrest⟩ := hrest
      simp only [emits_instr_bind, emits_narrowResult] at hrest
      obtain ⟨_, rfl, rfl, rfl⟩ := hrest
      obtain ⟨pa, hpa, gpa, rfl⟩ := lowerArgs_lowered args ha
      exact ⟨_, .call hty ht hpa, by simp [gt, gpa], by simp⟩
  | .field _ name, f, f', u, acts, h => by
      rw [lower] at h
      exact (emits_unsupported.mp h).elim

/-- The same for the arguments of a call. -/
theorem lowerArgs_lowered : ∀ (es : List Expr) {f f' : Frame} {u : Unit} {acts : List Action},
    Emits (lowerArgs es) S f u acts f' →
      ∃ parts, ExprLowered S (.args es) f parts f' ∧ GenuineAll S parts ∧
        acts = (Fragment.codeAll parts).map Action.code
  | [], f, f', u, acts, h => by
      rw [lowerArgs, emits_pure] at h
      obtain ⟨-, rfl, rfl⟩ := h
      exact ⟨_, .argsNil, by simp, by simp⟩
  | arg :: rest, f, f', u, acts, h => by
      rw [lowerArgs, emits_instr_bind] at h
      obtain ⟨more, rfl, h⟩ := h
      rw [emits_typeOf_bind] at h
      obtain ⟨ty, hty, h⟩ := h
      by_cases hlist : ∃ element, ty = .list element
      · obtain ⟨element, rfl⟩ := hlist
        rw [emits_instrs_bind] at h
        obtain ⟨_, rfl, h⟩ := h
        obtain ⟨p, f₁, _, harg, garg, rfl, hrest⟩ := emits_operand_bind (lower_lowered arg) h
        simp only [emits_instr_bind] at hrest
        obtain ⟨_, rfl, _, rfl, _, rfl, hrest⟩ := hrest
        obtain ⟨pa, hpa, gpa, rfl⟩ := lowerArgs_lowered rest hrest
        exact ⟨_, .argsCopied hty harg hpa, by simp [garg, gpa], by simp⟩
      · replace h : Emits (do
            arg.lower
            instr (.invoke .arrayListAdd)
            instr .pop
            lowerArgs rest) S f u more f' := by
          cases ty with
          | list element => exact absurd ⟨element, rfl⟩ hlist
          | _ => exact h
        obtain ⟨p, f₁, _, harg, garg, rfl, hrest⟩ := emits_operand_bind (lower_lowered arg) h
        simp only [emits_instr_bind] at hrest
        obtain ⟨_, rfl, _, rfl, hrest⟩ := hrest
        obtain ⟨pa, hpa, gpa, rfl⟩ := lowerArgs_lowered rest hrest
        exact ⟨_, .argsPassed hty (fun element he => hlist ⟨element, he⟩) harg hpa,
          by simp [garg, gpa], by simp⟩

end

end Expr

end JasminGen
