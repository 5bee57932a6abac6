/-
  JasminGen.Proofs.SlotBound

  How high the slots of a method get. The slots that are taken while a method is lowered are
  those in demand at its start, and one more for each loop; the code of the method names no
  slot that was not taken. So no slot in it is above the number of slots that can be counted
  in the source.

  Main definition: `CoversSlots`. Main results: `StmtLowered.demand`, `MethodLowered.slot_le`.
-/

import JasminGen.Proofs.SlotCount
import JasminGen.Proofs.SlotUse

namespace JasminGen

-- ============================================================================
-- Demand along lowering
-- ============================================================================

/-- The variables of these constructs that can have slots in the scope `id` are all among
    `names`. -/
def CoversSlots (S : Setting) (id : ScopeId) (names : Finset String) (nodes : List SourceNode) :
    Prop :=
  ∀ node ∈ nodes, ∀ name scope, node.varName? S = some name → S.symbols.scope id = .ok scope →
    name ∈ scope.slotNames → name ∈ names

section Demand

variable {S : Setting} {id : ScopeId} {names : Finset String}

@[simp] theorem coversSlots_nil : CoversSlots S id names [] := by
  simp [CoversSlots]

@[simp] theorem coversSlots_append {nodes nodes' : List SourceNode} :
    CoversSlots S id names (nodes ++ nodes') ↔
      CoversSlots S id names nodes ∧ CoversSlots S id names nodes' := by
  simp only [CoversSlots, List.forall_mem_append]

/-- A construct in front of others. -/
theorem coversSlots_cons {node : SourceNode} {nodes : List SourceNode} :
    CoversSlots S id names (node :: nodes) ↔
      CoversSlots S id names [node] ∧ CoversSlots S id names nodes := by
  rw [← List.singleton_append, coversSlots_append]

/-- A covered variable is in demand from the start. -/
theorem SlotOf.demand {f f' : Frame} {name : String} {slot : Nat} {node : SourceNode}
    (h : SlotOf S f name slot f') (hid : f.activeScope = id)
    (hcovers : CoversSlots S id names [node]) (hnode : node.varName? S = some name) :
    f'.slots.demand names = f.slots.demand names := by
  cases h with
  | known _ => rfl
  | @taken scope hnone hscope hfound hkind hlimit =>
      have hname : name ∈ names :=
        hcovers node (List.mem_singleton_self node) name scope hnode (hid ▸ hscope)
          (Scope.mem_slotNames hkind hfound)
      have hallocate : f.slots.allocate name = .ok (f.slots.next, (f.bindSlot name).slots) := by
        rw [SlotTable.allocate, hnone, SlotTable.allocateAnonymous, if_pos hlimit]
        rfl
      exact SlotTable.demand_allocate hname hallocate

theorem Frame.demand_afterSlot (f : Frame) :
    f.afterSlot.slots.demand names = f.slots.demand names + 1 := by
  show f.slots.next + 1 + (f.slots.unbound names).card =
    f.slots.next + (f.slots.unbound names).card + 1
  omega

/-- The constructs of a task. -/
def ExprTask.constructs : ExprTask → List SourceNode
  | .one e => .expr e :: e.inside
  | .args es => Expr.nodesOf es

def StmtTask.constructs : StmtTask → List SourceNode
  | .one s => .stmt s :: s.inside
  | .many ss => Stmt.nodesOf ss

/-- An expression takes no slots but those of its variables. -/
theorem ExprLowered.demand {t : ExprTask} {f f' : Frame} {parts : List Fragment}
    (h : ExprLowered S t f parts f') (hid : f.activeScope = id)
    (hcovers : CoversSlots S id names t.constructs) :
    f'.slots.demand names = f.slots.demand names := by
  induction h with
  | int | bool | function | argsNil => rfl
  | @«variable» f f' name slot hlookup hs =>
      have hnode : (SourceNode.expr (.ident name)).varName? S = some name := by
        rw [SourceNode.varName?, SymbolTable.function?_of_lookup hlookup]
        rfl
      exact hs.demand hid hcovers hnode
  | group _ ih | not _ ih | neg _ ih | size _ ih =>
      rw [ExprTask.constructs, Expr.inside, coversSlots_cons] at hcovers
      exact ih hid hcovers.2
  | arith hl _ ihl ihr | order hl _ ihl ihr | logic hl _ ihl ihr | equalValues _ _ hl _ ihl ihr
  | equalReferences _ _ hl _ ihl ihr | index _ _ hl _ ihl ihr | append hl _ ihl ihr
  | call _ hl _ ihl ihr =>
      rw [ExprTask.constructs, Expr.inside, coversSlots_cons, coversSlots_append] at hcovers
      have hleft := ihl hid hcovers.2.1
      have hright := ihr (hl.activeScope.trans hid) hcovers.2.2
      exact hright.trans hleft
  | argsCopied _ harg _ ih iha | argsPassed _ _ harg _ ih iha =>
      rw [ExprTask.constructs, Expr.nodesOf, coversSlots_append] at hcovers
      have hfirst := ih hid hcovers.1
      have hrest := iha (harg.activeScope.trans hid) hcovers.2
      exact hrest.trans hfirst

/-- Statements take one slot more for each loop. -/
theorem StmtLowered.demand {t : StmtTask} {f f' : Frame} {parts : List Fragment}
    (h : StmtLowered S t f parts f') (hid : f.activeScope = id)
    (hcovers : CoversSlots S id names t.constructs) :
    f'.slots.demand names = f.slots.demand names + t.loopCount := by
  induction h with
  | block _ ih =>
      rw [StmtTask.constructs, Stmt.inside, coversSlots_cons] at hcovers
      exact ih hid hcovers.2
  | declare he hs | assign he hs =>
      rw [StmtTask.constructs, Stmt.inside, coversSlots_cons] at hcovers
      have hvalue := he.demand hid hcovers.2
      have hslot := hs.demand (he.activeScope.trans hid) hcovers.1 rfl
      exact hslot.trans hvalue
  | declareZero _ hs =>
      rw [StmtTask.constructs, Stmt.inside] at hcovers
      exact hs.demand hid hcovers rfl
  | @cond f f₁ f₂ f' test positive negative pt pp pn ht hp _ ihp ihn =>
      rw [StmtTask.constructs, Stmt.inside_cond, coversSlots_cons, coversSlots_append,
        coversSlots_append] at hcovers
      obtain ⟨-, ⟨htest, hpositive⟩, hnegative⟩ := hcovers
      have hid₁ := ht.activeScope.trans hid
      have hdemand : f₁.slots.demand names = f.slots.demand names := ht.demand hid htest
      have hdemand₁ := ihp hid₁ hpositive
      have hdemand₂ := ihn (hp.activeScope.trans hid₁) hnegative
      rw [hdemand₂, hdemand₁, hdemand, StmtTask.loopCount, StmtTask.loopCount, StmtTask.loopCount,
        Stmt.loopCount_cond, Nat.add_assoc]
  | @loop f f₁ f' count body pc pb _ hc _ ihb =>
      rw [StmtTask.constructs, Stmt.inside, coversSlots_cons, coversSlots_append] at hcovers
      obtain ⟨-, hcount, hbody⟩ := hcovers
      have hdemand : f₁.slots.demand names = f.afterSlot.slots.demand names :=
        hc.demand hid hcount
      have hdemand₁ := ihb (hc.activeScope.trans hid) hbody
      rw [hdemand₁, hdemand, f.demand_afterSlot, StmtTask.loopCount, StmtTask.loopCount,
        Stmt.loopCount, Nat.add_assoc]
  | call _ he | append he | size he | retValue _ he | display _ _ _ he =>
      rw [StmtTask.constructs, Stmt.inside, coversSlots_cons] at hcovers
      exact he.demand hid hcovers.2
  | ret | nil => rfl
  | cons hs _ ih ihs =>
      rw [StmtTask.constructs, Stmt.nodesOf, coversSlots_append] at hcovers
      have hfirst := ih hid hcovers.1
      have hrest := ihs (hs.activeScope.trans hid) hcovers.2
      rw [hrest, hfirst, StmtTask.loopCount, StmtTask.loopCount, StmtTask.loopCount,
        Stmt.loopCountAll, Nat.add_assoc]

theorem FieldsLowered.demand {className : String} {fields : List FieldDef} {f f' : Frame}
    {p : List Fragment} (h : FieldsLowered S className fields f p f') (hid : f.activeScope = id)
    (hcovers : CoversSlots S id names (FieldDef.nodesOf fields)) :
    f'.slots.demand names = f.slots.demand names := by
  induction h with
  | nil => rfl
  | @cons f f₁ f' field rest p ps hi _ ih =>
      have hid₁ := (Frame.activeScope_congr hi.entered).trans hid
      cases hi with
      | @value _ _ name ty e p he =>
          change CoversSlots S id names (.expr e :: e.inside ++ FieldDef.nodesOf rest) at hcovers
          rw [coversSlots_append] at hcovers
          have hfirst := he.demand hid hcovers.1
          exact (ih hid₁ hcovers.2).trans hfirst
      | null | zero => exact ih hid₁ hcovers

end Demand

-- ============================================================================
-- The slots that code names
-- ============================================================================

section Methods

variable {S : Setting} {final : SlotTable}

/-- A slot that was never taken is anonymous and no counter, so nothing uses it. -/
theorem SlotRun.slot_lt {parts : List Fragment} {counters : List Nat} {i : Instr} {slot : Nat}
    (h : SlotRun S final.get? parts counters) (hfinal : SlotTable.Sound final)
    (hcounters : ∀ c ∈ counters, c < final.next) (hi : .instr i ∈ Fragment.codeAll parts)
    (hslot : i.slot? = some slot) : slot < final.next := by
  by_contra hlt
  have hfree : Anonymous final.get? slot := by
    refine ⟨?_, fun name hname => hlt (hfinal.used name slot hname)⟩
    have := hfinal.next_positive
    omega
  have hnone : slotUses slot (Fragment.codeAll parts) = [] := by
    rw [h.uses slot hfree, if_neg fun hc => hlt (hcounters slot hc)]
  have hmem : i ∈ slotUses slot (Fragment.codeAll parts) := by
    refine List.mem_filterMap.mpr ⟨.instr i, hi, ?_⟩
    simp [Code.slotUse?, hslot]
  rw [hnone] at hmem
  cases hmem

theorem InitialLowered.extends {field : FieldDef} {f f' : Frame} {p : List Fragment}
    (h : InitialLowered S field f p f') : SlotTable.Extends f.slots f'.slots := by
  cases h with
  | value he => exact he.extends
  | null | zero => exact .refl _

theorem FieldsLowered.extends {className : String} {fields : List FieldDef} {f f' : Frame}
    {p : List Fragment} (h : FieldsLowered S className fields f p f') :
    SlotTable.Extends f.slots f'.slots := by
  induction h with
  | nil => exact .refl _
  | cons hi _ ih => exact hi.extends.trans ih

theorem FieldsLowered.sound {className : String} {fields : List FieldDef} {f f' : Frame}
    {p : List Fragment} (h : FieldsLowered S className fields f p f') :
    SlotTable.Sound f.slots → SlotTable.Sound f'.slots := by
  induction h with
  | nil => exact id
  | cons hi _ ih =>
      cases hi with
      | value he => exact fun hf => ih (he.sound hf)
      | null | zero => exact ih

theorem FieldsLowered.slotRun {className : String} {fields : List FieldDef} {f f' : Frame}
    {p : List Fragment} (hfinal : SlotTable.Sound final)
    (h : FieldsLowered S className fields f p f') :
    SlotTable.Extends f'.slots final → SlotRun S final.get? p [] := by
  induction h with
  | nil => exact fun _ => .nil
  | @cons f f₁ f' field rest p ps hi hrest ih =>
      intro hext
      have hload : SlotRun S final.get? [.instr (.aload receiverSlot)] [] :=
        .instr fun _ _ => .inl rfl
      have hput : SlotRun S final.get? [.instr (.putfield className field.name field.ty)] [] := by
        simp [Instr.slot?]
      have hinitial : SlotRun S final.get? p [] := by
        cases hi with
        | value he =>
            obtain ⟨hrule, hrun⟩ := he.tidy hfinal (hrest.extends.trans hext)
            simp [hrule, hrun]
        | null => simp [Instr.slot?]
        | zero _ hz => exact .map_plain hz.slot?_eq_none
      simpa using hload.append (hinitial.append (hput.append (ih hext) (by simp)) (by simp))
        (by simp)

theorem Origin.coversSlots (o : Origin) :
    CoversSlots S (o.scopeId S) (o.slotVariables S) o.inside :=
  fun _ hnode _ _ hname hscope hslot => o.mem_slotVariables hnode hname hscope hslot

/-- Code between an initial load of the receiver and a return, or alone. -/
theorem SlotRun.method {before parts after : List Fragment} {counters : List Nat}
    (hbefore : before = superParts ∨ before = []) (hafter : after = [.instr .ret] ∨ after = [])
    (h : SlotRun S final.get? parts counters) :
    SlotRun S final.get? (before ++ parts ++ after) counters := by
  have hload : SlotRun S final.get? [.instr (.aload receiverSlot)] [] :=
    .instr fun _ _ => .inl rfl
  have hinit : SlotRun S final.get? [.instr (.invoke .objectInit)] [] := by simp
  have hsuper : SlotRun S final.get? superParts [] := hload.append hinit (by simp)
  have hret : SlotRun S final.get? [.instr .ret] [] := by simp
  have hfirst : SlotRun S final.get? (before ++ parts) counters := by
    rcases hbefore with rfl | rfl
    · simpa using hsuper.append h (by simp)
    · exact h
  rcases hafter with rfl | rfl
  · simpa using hfirst.append hret (by simp)
  · simpa using hfirst

/-- No slot in a method is above the number of slots that the method takes. -/
theorem MethodLowered.slot_le {o : Origin} {n n' : Label} {m : LoweredMethod} {i : Instr}
    {slot : Nat} (h : MethodLowered S o n m n') (hi : .instr i ∈ m.code.body)
    (hslot : i.slot? = some slot) : slot ≤ o.slotCount S := by
  have hcovers := o.coversSlots (S := S)
  have hempty := SlotTable.demand_empty (o.slotVariables S)
  have hcount : o.slotCount S = (o.slotVariables S).card + o.loopCount := rfl
  cases h with
  | @constructor s id n f' p hid hf =>
      have hscope : Origin.scopeId S (.constructor s) = id := by rw [Origin.scopeId, hid]; rfl
      have hfinal := hf.sound SlotTable.sound_empty
      have hrun := (hf.slotRun hfinal (.refl _)).method (.inl rfl) (.inl rfl)
      have hlt := hrun.slot_lt hfinal (by simp) hi hslot
      have hnext := f'.slots.next_le_demand (Origin.slotVariables S (.constructor s))
      have hdemand : f'.slots.demand _ = SlotTable.empty.demand _ :=
        hf.demand hscope.symm hcovers
      omega
  | entry =>
      have hnone : ∀ j ∈ entryInstrs, j.slot? = none := by simp [entryInstrs, Instr.slot?]
      rw [LoweredMethod.code, Fragment.codeAll_map_instr] at hi
      obtain ⟨j, hj, ⟨⟩⟩ := List.mem_map.mp hi
      rw [hnone i hj] at hslot
      cases hslot
  | @body ss id n f' p hid hb =>
      have hscope : Origin.scopeId S (.body ss) = id := by rw [Origin.scopeId, hid]; rfl
      have hfinal := hb.sound SlotTable.sound_empty
      obtain ⟨-, counters, hbody, hrange⟩ := hb.tidy hfinal SlotTable.sound_empty (.refl _)
      have hrun := hbody.method (.inl rfl) (.inl rfl)
      have hlt := hrun.slot_lt hfinal (fun c hc => (hrange c hc).2) hi hslot
      have hnext := f'.slots.next_le_demand (Origin.slotVariables S (.body ss))
      have hdemand : f'.slots.demand _ = SlotTable.empty.demand _ + Origin.loopCount (.body ss) :=
        hb.demand hscope.symm hcovers
      omega
  | @function fn id signature slots n f' p hid hlookup hslots hb =>
      have hscope : Origin.scopeId S (.function fn) = id := by rw [Origin.scopeId, hid]; rfl
      have hsound := SlotTable.sound_forMethod hslots
      have hfinal := hb.sound hsound
      obtain ⟨-, counters, hbody, hrange⟩ := hb.tidy hfinal hsound (.refl _)
      have hend : (if signature.result.isVoid then [Fragment.instr .ret] else []) =
          [.instr .ret] ∨ (if signature.result.isVoid then [Fragment.instr .ret] else []) = [] := by
        split <;> simp
      have hrun : SlotRun S f'.slots.get? ([] ++ p ++ _) counters := hbody.method (.inr rfl) hend
      have hlt := hrun.slot_lt hfinal (fun c hc => (hrange c hc).2) hi hslot
      have hnext := f'.slots.next_le_demand (Origin.slotVariables S (.function fn))
      have hdemand : f'.slots.demand _ = slots.demand _ + Origin.loopCount (.function fn) :=
        hb.demand hscope.symm hcovers
      have hparams : Origin.params S (.function fn) = signature.params.map Binding.name := by
        rw [Origin.params, SymbolTable.function?_of_lookup hlookup]
        rfl
      have hstart := Origin.demand_forMethod (.function fn) (hparams ▸ hslots)
      omega

end Methods

end JasminGen
