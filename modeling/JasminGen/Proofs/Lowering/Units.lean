/-
  JasminGen.Proofs.Lowering.Units

  Lowering keeps to the order of units, in every setting and whether it fails or not. A
  struct opens its unit and closes it, the entry class does the same, and inside of a
  method nothing but code and comments is asked for.

  Main definition: `Orderly`. Main results: `Stmt.lowerAll_inBody`, `Program.lower_orderly`.
-/

import JasminGen.Proofs.Lowering.Coupling
import JasminGen.Proofs.Lowering.Ends

namespace JasminGen

open Gen

-- ============================================================================
-- Inside of methods
-- ============================================================================

/-- Inside of a method, code and comments are asked for. -/
def Invariant.inBody (S : Setting) : Invariant S where
  Holds _ := True
  Meets _ := True
  Asks r := r.action.InBody
  Fails _ := True
  meets := id
  scope _ _ _ := trivial
  oracle _ _ _ _ := trivial
  extended _ _ _ := trivial
  labelled _ := trivial
  code _ c := .inl ⟨c, rfl⟩
  comment _ t := .inr ⟨t, rfl⟩
  error _ := trivial
  exhausted := trivial

theorem inBody_of_body {α : Type} {m : Gen α} {S : Setting}
    (h : (Invariant.inBody S).coupling.Body m m) (f : Frame) :
    ∀ r ∈ (m S f).requests, r.action.InBody :=
  ((Invariant.inBody S).kept h trivial).1

-- ============================================================================
-- Orderly computations
-- ============================================================================

/-- The computation keeps to the order of units from `opened` on, and if it succeeds it
    leaves a unit open or not as `opened'` says. -/
def Orderly {α : Type} (m : Gen α) (opened opened' : Bool) : Prop :=
  ∀ S f, Ends m S ⟨f, opened⟩ (fun _ s => s.opened = opened') (fun _ _ => True)

namespace Orderly

variable {α β : Type} {opened opened₁ opened' : Bool}

theorem bind {m : Gen α} {k : α → Gen β} (h : Orderly m opened opened₁)
    (hk : ∀ a, Orderly (k a) opened₁ opened') : Orderly (m >>= k) opened opened' := by
  intro S f
  refine .bind ((h S f).mono ?_ fun _ _ _ => trivial)
  rintro a ⟨f₁, _⟩ rfl
  exact hk a S f₁

theorem pure (a : α) : Orderly (Gen.pure a) opened opened :=
  fun _ _ => ends_pure rfl

theorem fail (failure : Failure) : Orderly (fail failure : Gen α) opened opened' :=
  fun _ _ => ends_fail trivial

theorem openedAfter_inBody {acts : List Action} (h : ∀ action ∈ acts, action.InBody) :
    openedAfter acts true = some true := by
  induction acts with
  | nil => rfl
  | cons action rest ih =>
      obtain ⟨haction, hrest⟩ := List.forall_mem_cons.mp h
      have hopened : action.opened? true = some true := by
        rcases haction with ⟨c, rfl⟩ | ⟨t, rfl⟩ <;> rfl
      rw [openedAfter, hopened]
      exact ih hrest

/-- Code and comments need an open unit and leave it open. -/
theorem of_inBody {m : Gen α} (h : ∀ S f, ∀ r ∈ (m S f).requests, r.action.InBody) :
    Orderly m true true := by
  intro S f
  refine ⟨true, openedAfter_inBody ?_, ?_⟩
  · intro action haction
    obtain ⟨r, hr, rfl⟩ := List.mem_map.mp haction
    exact h S f r hr
  · cases (m S f).result with
    | ok a => exact rfl
    | error failure => exact trivial

theorem report (word text name : String) : Orderly (report word text name) opened opened :=
  fun _ _ => ends_report rfl

theorem openUnit (kind : UnitKind) (name : String) : Orderly (openUnit kind name) false true :=
  fun _ _ => ends_openUnit rfl rfl

theorem closeUnit : Orderly closeUnit true false :=
  fun _ _ => ends_closeUnit rfl rfl

theorem code (c : Code) : Orderly (code c) true true :=
  fun _ _ => ends_code rfl rfl

theorem enterScope (kind : ScopeKind) (name : String) :
    Orderly (enterScope kind name) opened opened := by
  intro S f
  refine ends_frame_bind (ends_setting_bind ?_)
  split
  · exact ends_setFrame rfl
  · exact ends_fail trivial

theorem leaveScope : Orderly leaveScope opened opened := by
  intro S f
  refine ends_frame_bind ?_
  split
  · exact ends_fail trivial
  · exact ends_setFrame rfl

theorem lookupFunction (name : String) : Orderly (lookupFunction name) opened opened :=
  fun _ _ => ends_lookupFunction (fun _ _ => rfl) fun _ _ => trivial

theorem beginMethod (params : List String) : Orderly (beginMethod params) opened opened :=
  fun _ _ => ends_beginMethod (fun _ _ => rfl) fun _ _ => trivial

theorem beginConstructor : Orderly beginConstructor true true :=
  (beginMethod []).bind fun _ => (code _).bind fun _ => fun _ _ => ends_instrs rfl rfl

end Orderly

-- ============================================================================
-- Definitions and programs
-- ============================================================================

theorem Stmt.lowerAll_orderly (body : List Stmt) : Orderly (Stmt.lowerAll body) true true :=
  .of_inBody fun S => inBody_of_body ((Invariant.inBody S).coupling.stmts_lower body)

theorem StructDef.declareFields_orderly (fields : List FieldDef) :
    Orderly (declareFields fields) true true := by
  induction fields with
  | nil => exact .pure ()
  | cons field rest ih => exact (Orderly.code _).bind fun _ => ih

theorem StructDef.initFields_orderly (className : String) (fields : List FieldDef) :
    Orderly (initFields className fields) true true :=
  .of_inBody fun S => inBody_of_body ((Invariant.inBody S).coupling.initFields className fields)

/-- The unit of a struct is opened and closed. -/
theorem StructDef.lower_orderly (s : StructDef) : Orderly s.lower false false := by
  refine (Orderly.report _ _ _).bind fun _ => ?_
  split
  · exact .fail _
  · exact (Orderly.enterScope _ _).bind fun _ => (Orderly.openUnit _ _).bind fun _ =>
      (Orderly.code _).bind fun _ => (declareFields_orderly _).bind fun _ =>
      Orderly.beginConstructor.bind fun _ => (initFields_orderly _ _).bind fun _ =>
      (Orderly.code _).bind fun _ => (Orderly.code _).bind fun _ =>
      Orderly.closeUnit.bind fun _ => .leaveScope

/-- A method is written into the open unit. -/
theorem FunctionDef.lower_orderly (fn : FunctionDef) : Orderly fn.lower true true := by
  refine (Orderly.report _ _ _).bind fun _ => (Orderly.enterScope _ _).bind fun _ =>
    (Orderly.lookupFunction _).bind fun found => ?_
  cases found with
  | none => exact .fail _
  | some signature =>
      have hend : Orderly (Gen.code .endMethod >>= fun _ => Gen.leaveScope) true true :=
        (Orderly.code _).bind fun _ => .leaveScope
      refine (Orderly.beginMethod _).bind fun _ => (Orderly.code _).bind fun _ =>
        (Stmt.lowerAll_orderly _).bind fun _ => ?_
      cases signature.result.isVoid with
      | true => exact (Orderly.code _).bind fun _ => hend
      | false => exact hend

theorem FunctionDef.lowerAll_orderly (fns : List FunctionDef) :
    Orderly (FunctionDef.lowerAll fns) true true := by
  induction fns with
  | nil => exact .pure ()
  | cons fn rest ih => exact fn.lower_orderly.bind fun _ => ih

/-- The unit of the entry class is opened and closed. -/
theorem lowerEntry_orderly (body : List Stmt) (functions : List FunctionDef) :
    Orderly (lowerEntry body functions) false false :=
  (Orderly.report _ _ _).bind fun _ => (Orderly.openUnit _ _).bind fun _ =>
    (Orderly.code _).bind fun _ => (Orderly.code _).bind fun _ => (Orderly.code _).bind fun _ =>
    (Orderly.enterScope _ _).bind fun _ => Orderly.beginConstructor.bind fun _ =>
    (Stmt.lowerAll_orderly body).bind fun _ => (Orderly.code _).bind fun _ =>
    (Orderly.code _).bind fun _ => Orderly.leaveScope.bind fun _ =>
    (FunctionDef.lowerAll_orderly functions).bind fun _ => .closeUnit

theorem Program.lowerStructs_orderly (structs : List StructDef) :
    Orderly (lowerStructs structs) false false := by
  induction structs with
  | nil => exact .pure ()
  | cons s rest ih => exact s.lower_orderly.bind fun _ => ih

/-- The units of a program are opened and closed one after the other. -/
theorem Program.lower_orderly (program : Program) : Orderly program.lower false false :=
  (lowerStructs_orderly program.structs).bind fun _ =>
    lowerEntry_orderly program.body program.functions

end JasminGen
