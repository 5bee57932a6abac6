/-
  JasminGen.Proofs.Lowering.Opened

  Which units lowering opens: those of the structs of a program and of the entry class, also
  where lowering fails.

  Main definition: `OpensOnly`. Main result: `Program.opens_of_mem_actions`.
-/

import JasminGen.Proofs.Lowering.Program
import JasminGen.Proofs.Lowering.Units

namespace JasminGen

/-- If the action opens a unit, then one of such a name. -/
def Action.Opens (P : String → Prop) : Action → Prop
  | .openUnit name => P name
  | _ => True

/-- The computation opens no other units than those of such names. -/
def OpensOnly {α : Type} (P : String → Prop) (m : Gen α) : Prop :=
  ∀ S f, ∀ r ∈ (m S f).requests, r.action.Opens P

namespace OpensOnly

variable {α β : Type} {P : String → Prop}

theorem bind {m : Gen α} {k : α → Gen β} (h : OpensOnly P m) (hk : ∀ a, OpensOnly P (k a)) :
    OpensOnly P (m >>= k) := by
  intro S f r hr
  cases hresult : (m S f).result with
  | error failure =>
      rw [Gen.requests_bind_error hresult] at hr
      exact h S f r hr
  | ok a =>
      rw [Gen.requests_bind_ok hresult] at hr
      rcases List.mem_append.mp hr with hr | hr
      · exact h S f r hr
      · exact hk a S _ r hr

/-- A computation that asks for nothing. -/
theorem quiet {m : Gen α} (h : ∀ S f, (m S f).requests = []) : OpensOnly P m := by
  intro S f r hr
  rw [h] at hr
  cases hr

theorem of_inBody {m : Gen α} (h : ∀ S f, ∀ r ∈ (m S f).requests, r.action.InBody) :
    OpensOnly P m := by
  intro S f r hr
  rcases h S f r hr with ⟨c, hc⟩ | ⟨t, ht⟩
  · rw [hc]
    trivial
  · rw [ht]
    trivial

theorem request {action : Action} (h : action.Opens P) : OpensOnly P (Gen.request action) := by
  intro S f r hr
  obtain rfl := List.mem_singleton.mp hr
  exact h

theorem pure (a : α) : OpensOnly P (Gen.pure a) :=
  quiet fun _ _ => rfl

theorem fail (failure : Failure) : OpensOnly P (Gen.fail failure : Gen α) :=
  quiet fun _ _ => rfl

theorem ofExcept (x : Except Failure α) : OpensOnly P (Gen.ofExcept x) :=
  quiet fun _ _ => by cases x <;> rfl

theorem code (c : Code) : OpensOnly P (Gen.code c) :=
  request trivial

theorem closeUnit : OpensOnly P Gen.closeUnit :=
  request trivial

theorem report (word text name : String) : OpensOnly P (Gen.report word text name) := by
  refine (quiet fun _ _ => rfl).bind fun S => ?_
  dsimp only
  split
  · exact request trivial
  · exact pure ()

theorem openUnit {name : String} (h : P name) (kind : UnitKind) :
    OpensOnly P (Gen.openUnit kind name) := by
  have hopen : (Action.openUnit name).Opens P := h
  exact (request hopen).bind fun _ => report _ _ _

theorem enterScope (kind : ScopeKind) (name : String) : OpensOnly P (Gen.enterScope kind name) := by
  refine (quiet fun _ _ => rfl).bind fun f => (quiet fun _ _ => rfl).bind fun S => ?_
  split
  · exact quiet fun _ _ => rfl
  · exact fail _

theorem leaveScope : OpensOnly P Gen.leaveScope := by
  refine (quiet fun _ _ => rfl).bind fun f => ?_
  split
  · exact fail _
  · exact quiet fun _ _ => rfl

theorem lookupFunction (name : String) : OpensOnly P (Gen.lookupFunction name) :=
  (quiet fun _ _ => rfl).bind fun _ => (quiet fun _ _ => rfl).bind fun _ => ofExcept _

theorem beginMethod (params : List String) : OpensOnly P (Gen.beginMethod params) :=
  (ofExcept _).bind fun _ => (quiet fun _ _ => rfl).bind fun _ => quiet fun _ _ => rfl

theorem beginConstructor : OpensOnly P JasminGen.beginConstructor :=
  (beginMethod []).bind fun _ => (code _).bind fun _ => (code _).bind fun _ =>
    (code _).bind fun _ => pure ()

end OpensOnly

section Definitions

variable {P : String → Prop}

theorem Stmt.lowerAll_opensOnly (body : List Stmt) : OpensOnly P (Stmt.lowerAll body) :=
  .of_inBody fun S => inBody_of_body ((Invariant.inBody S).coupling.stmts_lower body)

theorem StructDef.declareFields_opensOnly (fields : List FieldDef) :
    OpensOnly P (declareFields fields) := by
  induction fields with
  | nil => exact .pure ()
  | cons field rest ih => exact (OpensOnly.code _).bind fun _ => ih

theorem StructDef.initFields_opensOnly (className : String) (fields : List FieldDef) :
    OpensOnly P (initFields className fields) :=
  .of_inBody fun S => inBody_of_body ((Invariant.inBody S).coupling.initFields className fields)

theorem StructDef.lower_opensOnly (s : StructDef) (h : P s.name) : OpensOnly P s.lower := by
  refine (OpensOnly.report _ _ _).bind fun _ => ?_
  split
  · exact .fail _
  · exact (OpensOnly.enterScope _ _).bind fun _ => (OpensOnly.openUnit h _).bind fun _ =>
      (OpensOnly.code _).bind fun _ => (declareFields_opensOnly _).bind fun _ =>
      OpensOnly.beginConstructor.bind fun _ => (initFields_opensOnly _ _).bind fun _ =>
      (OpensOnly.code _).bind fun _ => (OpensOnly.code _).bind fun _ =>
      OpensOnly.closeUnit.bind fun _ => .leaveScope

theorem FunctionDef.lower_opensOnly (fn : FunctionDef) : OpensOnly P fn.lower := by
  refine (OpensOnly.report _ _ _).bind fun _ => (OpensOnly.enterScope _ _).bind fun _ =>
    (OpensOnly.lookupFunction _).bind fun found => ?_
  cases found with
  | none => exact .fail _
  | some signature =>
      have hend : OpensOnly P (Gen.code .endMethod >>= fun _ => Gen.leaveScope) :=
        (OpensOnly.code _).bind fun _ => .leaveScope
      refine (OpensOnly.beginMethod _).bind fun _ => (OpensOnly.code _).bind fun _ =>
        (Stmt.lowerAll_opensOnly _).bind fun _ => ?_
      cases signature.result.isVoid with
      | true => exact (OpensOnly.code _).bind fun _ => hend
      | false => exact hend

theorem FunctionDef.lowerAll_opensOnly (fns : List FunctionDef) :
    OpensOnly P (FunctionDef.lowerAll fns) := by
  induction fns with
  | nil => exact .pure ()
  | cons fn rest ih => exact fn.lower_opensOnly.bind fun _ => ih

theorem lowerEntry_opensOnly (h : P entryClass) (body : List Stmt)
    (functions : List FunctionDef) : OpensOnly P (lowerEntry body functions) :=
  (OpensOnly.report _ _ _).bind fun _ => (OpensOnly.openUnit h _).bind fun _ =>
    (OpensOnly.code _).bind fun _ => (OpensOnly.code _).bind fun _ =>
    (OpensOnly.code _).bind fun _ => (OpensOnly.enterScope _ _).bind fun _ =>
    OpensOnly.beginConstructor.bind fun _ => (Stmt.lowerAll_opensOnly body).bind fun _ =>
    (OpensOnly.code _).bind fun _ => (OpensOnly.code _).bind fun _ =>
    OpensOnly.leaveScope.bind fun _ => (FunctionDef.lowerAll_opensOnly functions).bind fun _ =>
    .closeUnit

theorem Program.lowerStructs_opensOnly (structs : List StructDef) (h : ∀ s ∈ structs, P s.name) :
    OpensOnly P (lowerStructs structs) := by
  induction structs with
  | nil => exact .pure ()
  | cons s rest ih =>
      rw [List.forall_mem_cons] at h
      exact (s.lower_opensOnly h.1).bind fun _ => ih h.2

/-- The units of a program have the names of its structs and of the entry class. -/
theorem Program.opens_of_mem_actions {program : Program} {setting : Setting}
    (hstructs : ∀ s ∈ program.structs, P s.name) (hentry : P entryClass) :
    ∀ action ∈ program.actions setting, action.Opens P := by
  intro action haction
  obtain ⟨r, hr, rfl⟩ := List.mem_map.mp haction
  have hlower : OpensOnly P program.lower :=
    (lowerStructs_opensOnly program.structs hstructs).bind fun _ =>
      lowerEntry_opensOnly hentry program.body program.functions
  exact hlower setting .initial r hr

end Definitions

end JasminGen
