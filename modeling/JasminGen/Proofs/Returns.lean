/-
  JasminGen.Proofs.Returns

  Control does not run past the end of a method. The constructors, the static entry and
  the functions without result end with a return. In a function with a result the last
  statements decide: if the body returns on every way through its conditions, then so
  does its code.

  A function counts as one without result by the signature that is recorded under its
  name, which is also the one its method has.

  Main definitions: `Stmt.alwaysReturns`, `StaysInside`. Main result:
  `control_stays_inside`.
-/

import JasminGen.Proofs.Balance
import JasminGen.Proofs.Symbols
import JasminGen.Proofs.Walks

namespace JasminGen

-- ============================================================================
-- Statements that return
-- ============================================================================

mutual

/-- The statement returns, whichever way its conditions go. A loop may have nothing to
    repeat. -/
def Stmt.alwaysReturns : Stmt → Bool
  | .ret _ => true
  | .block body => Stmt.someReturns body
  | .cond _ positive (some negative) => positive.alwaysReturns && negative.alwaysReturns
  | .cond _ _ none => false
  | .declare _ _ _ | .assign _ _ | .loop _ _ | .call _ _ | .display _ | .append _ _ | .size _ =>
    false

/-- One of the statements returns, so those after it are never met. -/
def Stmt.someReturns : List Stmt → Bool
  | [] => false
  | s :: rest => s.alwaysReturns || Stmt.someReturns rest

end

theorem Stmt.alwaysReturns_cond (test : Expr) (positive : Stmt) (negative : Option Stmt) :
    (Stmt.cond test positive negative).alwaysReturns =
      (positive.alwaysReturns && Stmt.someReturns negative.toList) := by
  cases negative <;> simp [Stmt.alwaysReturns, Stmt.someReturns]

def StmtTask.alwaysReturns : StmtTask → Bool
  | .one s => s.alwaysReturns
  | .many ss => Stmt.someReturns ss

/-- No walk leaves the code of statements that return. -/
theorem StmtLowered.confined {S : Setting} {t : StmtTask} {f f' : Frame} {parts : List Fragment}
    {code : List Code} {place : Nat} (h : StmtLowered S t f parts f')
    (hreturns : t.alwaysReturns = true) (hnodup : (declared code).Nodup)
    (hat : At code place (Fragment.codeAll parts)) :
    Confined code place place (place + (Fragment.codeAll parts).length) := by
  induction h generalizing place with
  | block _ ih =>
      rw [StmtTask.alwaysReturns, Stmt.alwaysReturns] at hreturns
      exact ih hreturns hat
  | @cond f f₁ f₂ f' test positive negative pt pp pn ht hp hn ihp ihn =>
      rw [StmtTask.alwaysReturns, Stmt.alwaysReturns_cond, Bool.and_eq_true] at hreturns
      simp only [Fragment.codeAll_append, Fragment.codeAll_cons, Fragment.codeAll_nil,
        Fragment.code_expr, Fragment.code_stmt, Fragment.code_instr, Fragment.code_label,
        List.cons_append, List.nil_append, List.append_nil, List.length_append,
        List.length_cons, List.length_nil, At.append_iff, At.cons_iff] at hat ⊢
      obtain ⟨hatTest, hunbox, hbranch, hatPos, -, hother, hnop, hatNeg, -⟩ := hat
      -- either the positive branch is entered, or the negative one from its label
      have hpositive := ihp hreturns.1 hatPos
      have hnegative := ihn hreturns.2 hatNeg
      refine .through (ht.labelled.sealed hnodup hatTest) (Nat.le_refl _) (by omega) (by omega) ?_
      refine .plain (by omega) (by omega) hunbox rfl ?_
      refine .branch (by omega) (by omega) hbranch hnodup rfl hother ?_ ?_
      · exact hpositive.mono (by omega) (by omega)
      · refine .label (by omega) (by omega) hother ?_
        refine .plain (by omega) (by omega) hnop rfl ?_
        exact hnegative.mono (by omega) (by omega)
  | ret =>
      obtain ⟨hret, -⟩ := At.cons_iff.mp hat
      exact .leave (Nat.le_refl _) (by simp) hret rfl rfl
  | @retValue f f' e p ty _ he =>
      simp only [Fragment.codeAll_cons, Fragment.codeAll_nil, Fragment.code_expr,
        Fragment.code_instr, List.append_nil, List.length_append, List.length_singleton,
        At.append_iff, At.cons_iff] at hat ⊢
      obtain ⟨hatValue, hret, -⟩ := hat
      refine .through (he.labelled.sealed hnodup hatValue) (Nat.le_refl _) (by omega) (by omega) ?_
      exact .leave (by omega) (by omega) hret (by cases ty.isVoid <;> rfl)
        (by cases ty.isVoid <;> rfl)
  | @cons f f₁ f' s rest p ps hs _ ih ihs =>
      rw [StmtTask.alwaysReturns, Stmt.someReturns, Bool.or_eq_true] at hreturns
      simp only [Fragment.codeAll_cons, Fragment.code_stmt, List.length_append, At.append_iff]
        at hat ⊢
      rcases hreturns with hfirst | hlater
      · exact (ih hfirst hat.1).mono (Nat.le_refl _) (by omega)
      · refine .through (hs.labelled.sealed hnodup hat.1) (Nat.le_refl _) (by omega) (by omega) ?_
        exact (ihs hlater hat.2).mono (by omega) (by omega)
  | nil | declare | declareZero | assign | loop | call | display | append | size =>
      simp [StmtTask.alwaysReturns, Stmt.alwaysReturns, Stmt.someReturns] at hreturns

-- ============================================================================
-- Methods
-- ============================================================================

/-- Control that starts at the first instruction of a method stays inside of it. -/
structure StaysInside (body : List Code) : Prop where
  /-- No walk runs past the last line. -/
  walks : ∀ trace k, Walk body 0 trace k → k < body.length
  /-- A jump has its target in the method. -/
  jumps : ∀ (i : Nat) (x : Instr) (jump : Jump), body[i]? = some (.instr x) →
    x.jump? = some jump → ∃ j : Nat, body[j]? = some (.label jump.target)

/-- A method that has to end by a return: one that is not made from a function, or one of
    a function without result or with a body that returns. -/
def Origin.mustReturn (isVoid : FunctionDef → Prop) : Origin → Prop
  | .constructor _ | .entry | .body _ => True
  | .function f => isVoid f ∨ Stmt.someReturns f.body = true

/-- The function's recorded signature has no result. -/
def Setting.RecordsVoid (S : Setting) (f : FunctionDef) : Prop :=
  ∃ signature, S.symbols.function? f.name = some signature ∧ signature.result = .void

/-- Where functions have different names, it is their own result that is recorded. -/
theorem Setting.recordsVoid_iff {program : Program} {options : Options} {f : FunctionDef}
    (hdistinct : (program.functions.map FunctionDef.name).Nodup) (hf : f ∈ program.functions) :
    (Setting.ofProgram program options).RecordsVoid f ↔ f.result = .void := by
  have hrecorded : (Setting.ofProgram program options).symbols.function? f.name =
      some f.signature := SymbolTable.function?_eq hdistinct hf
  rw [RecordsVoid, hrecorded]
  constructor
  · rintro ⟨signature, hsignature, hresult⟩
    rw [← Option.some.inj hsignature] at hresult
    exact hresult
  · intro hresult
    exact ⟨f.signature, rfl, hresult⟩

theorem StaysInside.of_return {body : List Code} {l : Label} {count loops : Nat}
    (h : Labelled l count loops body) (hlast : body.getLast? = some (.instr .ret)) :
    StaysInside body where
  walks trace k hwalk := by
    refine hwalk.lt_length hlast rfl (List.length_pos_iff.mpr ?_)
    rintro rfl
    cases hlast
  jumps i y jump hy hjump := h.declares_target hy hjump

theorem MethodLowered.staysInside {S : Setting} {o : Origin} {n n' : Label} {m : LoweredMethod}
    (h : MethodLowered S o n m n') (hcount : o.labelCount ≤ UInt32.size)
    (hreturn : o.mustReturn S.RecordsVoid) : StaysInside m.code.body := by
  have hlabels := h.labelled.2
  cases h with
  | constructor => exact .of_return hlabels (by simp [LoweredMethod.code])
  | entry => exact .of_return hlabels (by simp [LoweredMethod.code, entryInstrs])
  | body => exact .of_return hlabels (by simp [LoweredMethod.code])
  | @function fn id signature slots n f' p _ hlookup _ hbody =>
      cases hvoid : signature.result.isVoid with
      | true =>
          simp only [LoweredMethod.code, hvoid, if_true] at hlabels ⊢
          exact .of_return hlabels (by simp)
      | false =>
          -- the recorded signature has a result, so the body is one that returns
          have hbodyReturns : Stmt.someReturns fn.body = true := by
            refine hreturn.resolve_left ?_
            rintro ⟨recorded, hrecorded, hresult⟩
            rw [SymbolTable.function?_of_lookup hlookup] at hrecorded
            rw [Option.some.inj hrecorded, hresult] at hvoid
            cases hvoid
          simp only [LoweredMethod.code, hvoid, Bool.false_eq_true, if_false, List.append_nil]
            at hlabels ⊢
          have hconfined := hbody.confined hbodyReturns (hlabels.declared_nodup hcount) (.refl _)
          refine ⟨fun trace k hwalk => ?_,
            fun i x jump hx hjump => hlabels.declares_target hx hjump⟩
          have hk := hconfined trace k hwalk
          omega

theorem MethodsLowered.staysInside {S : Setting} {os : List Origin} {n n' : Label}
    {ms : List LoweredMethod} (h : MethodsLowered S os n ms n')
    (hcount : (os.map Origin.labelCount).sum ≤ UInt32.size) :
    List.Forall₂ (fun o m => o.mustReturn S.RecordsVoid → StaysInside m.body) os
      (ms.map LoweredMethod.code) := by
  induction h with
  | nil => exact .nil
  | cons hm _ _ ih =>
      rw [List.map_cons, List.sum_cons] at hcount
      exact .cons (hm.staysInside (by omega)) (ih (by omega))

-- ============================================================================
-- Main result
-- ============================================================================

/-- Control never runs past the end of a constructor, of the static entry, of the method of
    a function that is recorded without result, or of one whose body returns. -/
theorem control_stays_inside {σ ω : Type} [Sink σ ω] (setting : Setting) (program : Program)
    (sink : σ) (hrun : (generate setting program sink).1 = .ok ())
    (hcount : program.labelCount < UInt32.size) :
    List.Forall₂ (fun o m => o.mustReturn setting.RecordsVoid → StaysInside m.body)
      program.origins (methods (program.codes setting)) := by
  obtain ⟨ms, hms, hcodes, -⟩ := Program.lower_methods (generate_emits hrun)
  have hmethods : methods (program.codes setting) = ms.map LoweredMethod.code := hcodes.methods_eq
  rw [hmethods]
  exact hms.staysInside (Nat.le_of_lt hcount)

/-- A program with functions that return in both branches of a condition, in a block, and
    by reaching their end. -/
def choosingProgram : Program where
  body := [.cond (.call (.ident "isSmall") [.int 3]) (.call (.ident "note") []) none]
  functions := [⟨"isSmall", [⟨"n", .int⟩], .bool,
      [.cond (.binary (.order .lt) (.ident "n") (.int 9)) (.ret (some (.bool true)))
        (some (.block [.call (.ident "note") [], .ret (some (.bool false))]))]⟩,
    ⟨"note", [], .void, [.loop (.int 2) (.display (.int 1))]⟩]

theorem control_stays_inside_choosingProgram :
    (∀ o ∈ choosingProgram.origins,
        o.mustReturn (Setting.RecordsVoid (.ofProgram choosingProgram {}))) ∧
      List.Forall₂ (fun o m => o.mustReturn (Setting.RecordsVoid (.ofProgram choosingProgram {})) →
        StaysInside m.body) choosingProgram.origins
        (methods (choosingProgram.codes (.ofProgram choosingProgram {}))) := by
  refine ⟨?_, control_stays_inside _ choosingProgram Memory.empty (generate_memory_ok _ (by decide +kernel))
    (by decide)⟩
  simp only [choosingProgram, Program.origins, List.map_cons, List.map_nil, List.nil_append,
    List.forall_mem_cons]
  refine ⟨trivial, trivial, .inr rfl, .inl ?_, by simp⟩
  exact (Setting.recordsVoid_iff (by decide) (by simp)).mpr rfl

/-- Two functions of one name: the first has no result, the second gives a number. -/
def overriddenProgram : Program where
  functions := [⟨"f", [], .void, []⟩, ⟨"f", [], .int, [.ret (some (.int 1))]⟩]

/-- The signature of the last function of a name counts for all of them, so the method of
    the first function here is empty, and control runs past its end at once. -/
theorem overridden_runs_past_end :
    (generate (.ofProgram overriddenProgram {}) overriddenProgram Memory.empty).1 = .ok () ∧
      overriddenProgram.labelCount < UInt32.size ∧
      ¬ List.Forall₂ (fun o m => o.mustReturn (fun f => f.result = .void) → StaysInside m.body)
        overriddenProgram.origins
        (methods (overriddenProgram.codes (.ofProgram overriddenProgram {}))) := by
  refine ⟨generate_memory_ok _ (by decide +kernel), by decide, ?_⟩
  intro hall
  have hfirst : StaysInside [] := List.Forall₂.get hall (i := 2) (by decide) (by decide) (.inl rfl)
  exact Nat.lt_irrefl 0 (hfirst.walks [] 0 .stay)

end JasminGen
