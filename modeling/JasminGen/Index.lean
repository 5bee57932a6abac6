/-
  JasminGen.Index

  Numbered things: labels and scopes carry a 32-bit number, and a sequence can be
  addressed by such a number instead of a bare position.

  A number is made from a natural number by dropping the bits above the 32nd.
  Stepping forward first adds in 64 bits, and there an overflow is a fault.

  Main definitions: `Index`, `Index.plus`, `Indexed`.
-/

namespace JasminGen

/-- Broken expectations that stop a run at once. They carry no message. -/
inductive Fault where
  /-- A number addresses nothing. -/
  | indexOutOfRange
  /-- Stepping an index forward left the 64-bit range. -/
  | indexOverflow
  /-- A method has handed out all its local slots. -/
  | slotsExhausted
  deriving DecidableEq

/-- Types whose values are numbers of one kind of thing. -/
class Index (ι : Type) where
  ofNat : Nat → ι
  toNat : ι → Nat

/-- The index `amount` places further. -/
def Index.plus {ι : Type} [Index ι] (index : ι) (amount : Nat) : Except Fault ι :=
  if Index.toNat index + amount < UInt64.size then
    .ok (Index.ofNat (Index.toNat index + amount))
  else .error .indexOverflow

/-- A label of the generated code. -/
structure Label where
  number : UInt32
  deriving DecidableEq

instance : Index Label where
  ofNat n := ⟨UInt32.ofNat n⟩
  toNat l := l.number.toNat

/-- The name of a label in the assembly text. -/
def Label.text (l : Label) : String :=
  "Label_" ++ toString l.number.toNat

/-- The label after this one. -/
def Label.next (l : Label) : Label :=
  ⟨l.number + 1⟩

/-- A scope of a symbol table. -/
structure ScopeId where
  number : UInt32
  deriving DecidableEq

instance : Index ScopeId where
  ofNat n := ⟨UInt32.ofNat n⟩
  toNat s := s.number.toNat

/-- A sequence of values addressed by indices of type `ι`. -/
structure Indexed (ι α : Type) where
  items : Array α

namespace Indexed

variable {ι α : Type} [Index ι]

def empty : Indexed ι α := ⟨#[]⟩

def size (xs : Indexed ι α) : Nat := xs.items.size

def isEmpty (xs : Indexed ι α) : Bool := xs.items.isEmpty

/-- The index that the next added value gets. -/
def next (xs : Indexed ι α) : ι := Index.ofNat xs.size

/-- Add a value at the end. -/
def push (xs : Indexed ι α) (value : α) : Indexed ι α := ⟨xs.items.push value⟩

def get? (xs : Indexed ι α) (index : ι) : Option α := xs.items[Index.toNat index]?

/-- The value at an index that is expected to be there. -/
def get (xs : Indexed ι α) (index : ι) : Except Fault α :=
  match xs.get? index with
  | some value => .ok value
  | none => .error .indexOutOfRange

/-- Change the value at an index that is expected to be there. -/
def modify (xs : Indexed ι α) (index : ι) (f : α → α) : Except Fault (Indexed ι α) :=
  if Index.toNat index < xs.size then .ok ⟨xs.items.modify (Index.toNat index) f⟩
  else .error .indexOutOfRange

/-- Replace the value at an index that is expected to be there. -/
def set (xs : Indexed ι α) (index : ι) (value : α) : Except Fault (Indexed ι α) :=
  xs.modify index fun _ => value

/-- The values in brackets, with a comma between two of them. -/
def render (xs : Indexed ι α) (renderItem : α → String) : String :=
  "[" ++ ", ".intercalate (xs.items.toList.map renderItem) ++ "]"

end Indexed

end JasminGen
