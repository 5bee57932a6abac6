/-
  JasminGen.Proofs.SlotCount

  How many slots a method takes: one for each of its parameters, one for each variable
  that its code reads or stores, and one for each loop. Binding a name leaves the demand
  of a set of names as it is, so the demand at the start of a method bounds every slot
  that is taken later.

  Main definitions: `SlotTable.demand`, `Origin.slotCount`. Main results:
  `SlotTable.demand_allocate`, `SlotTable.exhausted_of_allocate`.
-/

import Mathlib.Data.Finset.Card
import JasminGen.Proofs.Labels
import JasminGen.Proofs.Lowering.Constructs
import JasminGen.Proofs.Slots

namespace JasminGen

-- ============================================================================
-- Demand
-- ============================================================================

namespace SlotTable

/-- The names of a set that have no slot yet. -/
def unbound (t : SlotTable) (names : Finset String) : Finset String :=
  names.filter fun name => t.get? name = none

/-- The next slot there is after all names of a set have got theirs. -/
def demand (t : SlotTable) (names : Finset String) : Nat :=
  t.next + (t.unbound names).card

theorem demand_empty (names : Finset String) : empty.demand names = names.card + 1 := by
  have hunbound : empty.unbound names = names := by
    apply Finset.filter_true_of_mem
    intro name _
    rfl
  rw [demand, hunbound, Nat.add_comm]
  rfl

/-- An anonymous slot is one more slot in demand. -/
theorem demand_allocateAnonymous {t t' : SlotTable} {slot : Nat} (names : Finset String)
    (h : t.allocateAnonymous = .ok (slot, t')) : t'.demand names = t.demand names + 1 := by
  unfold allocateAnonymous at h
  split at h
  · cases h
    change t.next + 1 + (t.unbound names).card = t.next + (t.unbound names).card + 1
    omega
  · cases h

theorem exhausted_of_allocateAnonymous {t : SlotTable} {fault : Fault}
    (h : t.allocateAnonymous = .error fault) : fault = .slotsExhausted ∧ slotLimit ≤ t.next := by
  unfold allocateAnonymous at h
  split at h
  · cases h
  · next hlt =>
      cases h
      exact ⟨rfl, Nat.le_of_not_lt hlt⟩

theorem next_le_demand (t : SlotTable) (names : Finset String) : t.next ≤ t.demand names :=
  Nat.le_add_right _ _

/-- A name that gets a slot no longer demands one. -/
theorem demand_allocate {t t' : SlotTable} {name : String} {slot : Nat} {names : Finset String}
    (hname : name ∈ names) (h : t.allocate name = .ok (slot, t')) :
    t'.demand names = t.demand names := by
  rcases allocate_cases h with ⟨-, rfl⟩ | ⟨hnone, -, heq⟩
  · rfl
  · have hget (other : String) := Frame.get?_bindSlot ⟨[], t, ⟨0⟩⟩ name other
    have hnext : t'.next = t.next + 1 := by
      rw [heq [] ⟨0⟩]
      rfl
    have hunbound : t'.unbound names = (t.unbound names).erase name := by
      ext other
      rw [unbound, unbound, Finset.mem_filter, Finset.mem_erase, Finset.mem_filter, heq [] ⟨0⟩,
        hget other]
      by_cases hother : other = name
      · simp [hother]
      · simp [hother]
    have hmem : name ∈ t.unbound names := Finset.mem_filter.mpr ⟨hname, hnone⟩
    have hcard := Finset.card_erase_add_one hmem
    rw [demand, demand, hunbound, hnext]
    omega

/-- A name of the set cannot be bound only if the demand exceeds the slots there are. -/
theorem exhausted_of_allocate {t : SlotTable} {name : String} {fault : Fault}
    {names : Finset String} (hname : name ∈ names) (h : t.allocate name = .error fault) :
    fault = .slotsExhausted ∧ slotLimit < t.demand names := by
  unfold allocate at h
  cases hnone : t.get? name with
  | some slot =>
      rw [hnone] at h
      cases h
  | none =>
      rw [hnone] at h
      have hmem : name ∈ t.unbound names := Finset.mem_filter.mpr ⟨hname, hnone⟩
      have hcard : 0 < (t.unbound names).card := Finset.card_pos.mpr ⟨name, hmem⟩
      cases hslot : t.allocateAnonymous with
      | ok result =>
          rw [hslot] at h
          cases h
      | error reason =>
          rw [hslot] at h
          cases h
          obtain ⟨hfault, hlimit⟩ := exhausted_of_allocateAnonymous hslot
          refine ⟨hfault, ?_⟩
          rw [demand]
          omega

/-- Binding names of the set leaves the demand as it is, or exceeds the slots there are. -/
theorem demand_allocateAll {names : Finset String} (params : List String)
    (hparams : ∀ name ∈ params, name ∈ names) (t : SlotTable) :
    (∃ t', t.allocateAll params = .ok t' ∧ t'.demand names = t.demand names) ∨
      (t.allocateAll params = .error .slotsExhausted ∧ slotLimit < t.demand names) := by
  induction params generalizing t with
  | nil => exact .inl ⟨t, rfl, rfl⟩
  | cons name rest ih =>
      have hname := hparams name List.mem_cons_self
      cases hslot : t.allocate name with
      | error fault =>
          obtain ⟨rfl, hlimit⟩ := exhausted_of_allocate hname hslot
          refine .inr ⟨?_, hlimit⟩
          rw [allocateAll, hslot]
      | ok result =>
          obtain ⟨slot, t₁⟩ := result
          have hdemand := demand_allocate hname hslot
          rw [allocateAll, hslot, ← hdemand]
          exact ih (fun other ho => hparams other (List.mem_cons_of_mem name ho)) t₁

end SlotTable

-- ============================================================================
-- The slots of a method
-- ============================================================================

/-- The variables of a scope that can have slots. Fields have none. -/
def Scope.slotNames (scope : Scope) : Finset String :=
  match scope.kind with
  | .function | .entry => (scope.bindings.map Binding.name).toFinset
  | .root | .struct => ∅

theorem Scope.isSome_find?_iff (scope : Scope) (name : String) :
    (scope.find? name).isSome ↔ name ∈ scope.bindings.map Binding.name := by
  simp [Scope.find?, List.find?_isSome]

theorem Scope.mem_slotNames {scope : Scope} {name : String}
    (hkind : scope.kind = .function ∨ scope.kind = .entry) (hfound : (scope.find? name).isSome) :
    name ∈ scope.slotNames := by
  rw [isSome_find?_iff] at hfound
  unfold slotNames
  rcases hkind with hkind | hkind <;> rw [hkind] <;> exact List.mem_toFinset.mpr hfound

/-- The variable that the code of a construct reads or stores itself, if it is one. The
    name of a function is read as a pointer to the function. -/
def SourceNode.varName? (S : Setting) : SourceNode → Option String
  | .expr (.ident name) => if (S.symbols.function? name).isSome then none else some name
  | .stmt (.declare name _ _) => some name
  | .stmt (.assign (.ident name) _) => some name
  | _ => none

namespace Origin

/-- The parameters of a method, as its signature has them. -/
def params (S : Setting) : Origin → List String
  | .function f => ((S.symbols.function? f.name).map fun s => s.params.map Binding.name).getD []
  | _ => []

/-- The scope in which a method is lowered, if it has one. -/
def scope? (S : Setting) (o : Origin) : Option Scope :=
  (S.symbols.scope (o.scopeId S)).toOption

/-- The variables that get slots in a method: its parameters, and what its code reads or
    stores. -/
def slotVariables (S : Setting) (o : Origin) : Finset String :=
  (o.params S).toFinset ∪
    ((o.inside.filterMap (SourceNode.varName? S)).toFinset ∩
      ((o.scope? S).map Scope.slotNames).getD ∅)

/-- The number of slots that a method takes, apart from that of the receiver. -/
def slotCount (S : Setting) (o : Origin) : Nat :=
  (o.slotVariables S).card + o.loopCount

/-- A variable that a construct of the method reads or stores, and that can have a slot. -/
theorem mem_slotVariables {S : Setting} (o : Origin) {node : SourceNode} {name : String}
    {scope : Scope} (hnode : node ∈ o.inside) (hname : node.varName? S = some name)
    (hscope : S.symbols.scope (o.scopeId S) = .ok scope) (hslot : name ∈ scope.slotNames) :
    name ∈ o.slotVariables S := by
  have hread : name ∈ o.inside.filterMap (SourceNode.varName? S) :=
    List.mem_filterMap.mpr ⟨node, hnode, hname⟩
  have hscope? : o.scope? S = some scope := by
    rw [Origin.scope?, hscope]
    rfl
  rw [Origin.slotVariables, hscope?, Finset.mem_union, Finset.mem_inter, List.mem_toFinset,
    List.mem_toFinset]
  exact .inr ⟨hread, hslot⟩

/-- Once the parameters have their slots, all the slots in demand are those of the variables. -/
theorem demand_forMethod {S : Setting} (o : Origin) {slots : SlotTable}
    (h : SlotTable.forMethod (o.params S) = .ok slots) :
    slots.demand (o.slotVariables S) = (o.slotVariables S).card + 1 := by
  have hnames : ∀ name ∈ o.params S, name ∈ o.slotVariables S := by
    intro name hname
    rw [Origin.slotVariables, Finset.mem_union, List.mem_toFinset]
    exact .inl hname
  rw [← SlotTable.demand_empty]
  rcases SlotTable.demand_allocateAll (o.params S) hnames .empty with
    ⟨slots', hslots', hkept⟩ | ⟨herror, -⟩
  · obtain rfl : slots = slots' := Except.ok.inj (h.symm.trans hslots')
    exact hkept
  · cases h.symm.trans herror

end Origin

end JasminGen
