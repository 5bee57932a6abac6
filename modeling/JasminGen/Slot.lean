/-
  JasminGen.Slot

  Local slots of a method. Slot 0 holds the receiver. Parameters take the slots
  from 1 on, in order, and a local gets the next free slot when it is first used.
  Slots are never taken back.

  Main functions: `SlotTable.forMethod`, `SlotTable.allocate`,
  `SlotTable.allocateAnonymous`.
-/

import JasminGen.Index

namespace JasminGen

/-- The slot of the receiver. -/
def receiverSlot : Nat := 0

/-- No slot from here on can be handed out. -/
def slotLimit : Nat := 65535

/-- The names bound to slots, and the next free slot. -/
structure SlotTable where
  slots : List (String × Nat)
  next : Nat
  deriving DecidableEq

namespace SlotTable

def empty : SlotTable := ⟨[], receiverSlot + 1⟩

def get? (table : SlotTable) (name : String) : Option Nat :=
  table.slots.lookup name

/-- Take a slot that no name refers to. -/
def allocateAnonymous (table : SlotTable) : Except Fault (Nat × SlotTable) :=
  if table.next < slotLimit then .ok (table.next, ⟨table.slots, table.next + 1⟩)
  else .error .slotsExhausted

/-- The slot of a name, which is bound to the next free slot if it has none. -/
def allocate (table : SlotTable) (name : String) : Except Fault (Nat × SlotTable) :=
  match table.get? name with
  | some slot => .ok (slot, table)
  | none =>
    match table.allocateAnonymous with
    | .ok (slot, rest) => .ok (slot, ⟨(name, slot) :: rest.slots, rest.next⟩)
    | .error fault => .error fault

/-- Bind names in order. -/
def allocateAll (table : SlotTable) : List String → Except Fault SlotTable
  | [] => .ok table
  | name :: rest =>
    match table.allocate name with
    | .ok (_, table') => table'.allocateAll rest
    | .error fault => .error fault

/-- The table a method with the given parameters starts with. -/
def forMethod (params : List String) : Except Fault SlotTable :=
  empty.allocateAll params

end SlotTable

end JasminGen
