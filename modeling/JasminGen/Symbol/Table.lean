/-
  JasminGen.Symbol.Table

  Symbol tables. There is one root scope, which knows all functions and structs,
  and below it one scope for each function, each struct and the program's body.
  A scope knows its own variables. A later declaration of a name hides an earlier
  one.

  Which scope is around another one follows from the kinds here. `JasminGen.Symbol.Scopes`
  has the scopes as they are stored, and `JasminGen.Proofs.Scopes` that both agree.

  Main functions: `SymbolTable.declareFunction`, `SymbolTable.declareStruct`,
  `SymbolTable.declareEntry`, `SymbolTable.declareVariable`, the three lookups and
  `SymbolTable.ofProgram`.
-/

import JasminGen.Index
import JasminGen.Stmt

namespace JasminGen

inductive ScopeKind where
  | root
  | function
  | struct
  | entry
  deriving DecidableEq

namespace ScopeKind

/-- All kinds, in their order. -/
def all : List ScopeKind := [.root, .function, .struct, .entry]

end ScopeKind

/-- The name of the scope of the program's body. -/
def entryScopeName : String := "main"

/-- What is known about a function from its head. -/
structure Signature where
  name : String
  params : List Binding
  result : Ty
  deriving DecidableEq

namespace Signature

def paramTypes (signature : Signature) : List Ty :=
  signature.params.map Binding.ty

/-- The type of a pointer to the function. -/
def pointerTy (signature : Signature) : Ty :=
  .fptr signature.paramTypes signature.result

def descriptor (signature : Signature) : String :=
  methodDescriptor signature.paramTypes signature.result

end Signature

/-- The fields of a struct, in order. -/
structure Layout where
  name : String
  fields : List Binding
  deriving DecidableEq

/-- A scope with its variables, the latest first. Only the root has no name. -/
structure Scope where
  kind : ScopeKind
  name : Option String
  bindings : List Binding
  deriving DecidableEq

namespace Scope

/-- The type of a variable of the scope itself. -/
def find? (scope : Scope) (name : String) : Option Ty :=
  (scope.bindings.find? fun b => b.name == name).map Binding.ty

def declare (scope : Scope) (b : Binding) : Scope :=
  ⟨scope.kind, scope.name, b :: scope.bindings⟩

end Scope

/-- The scopes in order of creation, and all functions and structs, the latest
    first. -/
structure SymbolTable where
  scopes : Indexed ScopeId Scope
  functions : List Signature
  structs : List Layout

namespace SymbolTable

/-- The root scope. -/
def root : ScopeId := ⟨0⟩

/-- A table with nothing but a root scope. -/
def empty : SymbolTable := ⟨Indexed.empty.push ⟨.root, none, []⟩, [], []⟩

/-- The scope with an id that is expected to exist. -/
def scope (table : SymbolTable) (id : ScopeId) : Except Fault Scope :=
  table.scopes.get id

/-- The scope around a scope: the root for all but the root itself. -/
def parent? (scope : Scope) : Option ScopeId :=
  match scope.kind with
  | .root => none
  | _ => some root

/-- The latest scope of a kind and name. -/
def childScope? (table : SymbolTable) (kind : ScopeKind) (name : String) : Option ScopeId :=
  (lastMatch 0 table.scopes.items.toList).map fun place => Index.ofNat place
where
  lastMatch (place : Nat) : List Scope → Option Nat
    | [] => none
    | s :: rest =>
      match lastMatch (place + 1) rest with
      | some found => some found
      | none => if s.kind = kind ∧ s.name = some name then some place else none

def entryScope? (table : SymbolTable) : Option ScopeId :=
  table.childScope? .entry entryScopeName

/-! ## Declarations -/

/-- Add a scope below the root. -/
def addScope (table : SymbolTable) (kind : ScopeKind) (name : String) (bindings : List Binding) :
    ScopeId × SymbolTable :=
  (table.scopes.next,
    ⟨table.scopes.push ⟨kind, some name, bindings⟩, table.functions, table.structs⟩)

/-- Add a function; its scope starts with the parameters. -/
def declareFunction (table : SymbolTable) (signature : Signature) : ScopeId × SymbolTable :=
  let (id, added) := table.addScope .function signature.name signature.params.reverse
  (id, ⟨added.scopes, signature :: added.functions, added.structs⟩)

/-- Add a struct; its scope starts with the fields. -/
def declareStruct (table : SymbolTable) (layout : Layout) : ScopeId × SymbolTable :=
  let (id, added) := table.addScope .struct layout.name layout.fields.reverse
  (id, ⟨added.scopes, added.functions, layout :: added.structs⟩)

/-- Add a scope for the program's body. -/
def declareEntry (table : SymbolTable) : ScopeId × SymbolTable :=
  table.addScope .entry entryScopeName []

/-- Declare a variable in a scope that is expected to exist. -/
def declareVariable (table : SymbolTable) (id : ScopeId) (b : Binding) :
    Except Fault SymbolTable :=
  match table.scopes.modify id fun s => s.declare b with
  | .ok scopes => .ok ⟨scopes, table.functions, table.structs⟩
  | .error fault => .error fault

/-! ## Lookups -/

def function? (table : SymbolTable) (name : String) : Option Signature :=
  table.functions.find? fun f => f.name == name

def struct? (table : SymbolTable) (name : String) : Option Layout :=
  table.structs.find? fun s => s.name == name

/-- A function as seen from a scope. -/
def lookupFunction (table : SymbolTable) (id : ScopeId) (name : String) :
    Except Fault (Option Signature) :=
  match table.scope id with
  | .ok _ => .ok (table.function? name)
  | .error fault => .error fault

/-- A struct as seen from a scope. -/
def lookupStruct (table : SymbolTable) (id : ScopeId) (name : String) :
    Except Fault (Option Layout) :=
  match table.scope id with
  | .ok _ => .ok (table.struct? name)
  | .error fault => .error fault

/-- A variable as seen from a scope: one of its own, or one of the scopes around
    it. -/
def lookupVariable (table : SymbolTable) (id : ScopeId) (name : String) :
    Except Fault (Option Ty) :=
  match table.scope id with
  | .error fault => .error fault
  | .ok s =>
    match s.find? name with
    | some ty => .ok (some ty)
    | none =>
      match parent? s with
      | none => .ok none
      | some outer =>
        match table.scope outer with
        | .ok o => .ok (o.find? name)
        | .error fault => .error fault

/-! ## The table of a program -/

/-- The scope and signature of a function with the variables of its body. -/
def addFunction (table : SymbolTable) (f : FunctionDef) : SymbolTable :=
  let signature : Signature := ⟨f.name, f.params, f.result⟩
  let bindings := f.params ++ Stmt.declaresAll f.body
  let (_, added) := table.addScope .function f.name bindings.reverse
  ⟨added.scopes, signature :: added.functions, added.structs⟩

def addStruct (table : SymbolTable) (s : StructDef) : SymbolTable :=
  (table.declareStruct ⟨s.name, s.fields.map FieldDef.binding⟩).2

/-- The table of a program: its structs, its functions and its body, in this
    order. -/
def ofProgram (program : Program) : SymbolTable :=
  let withStructs := program.structs.foldl addStruct empty
  let withFunctions := program.functions.foldl addFunction withStructs
  (withFunctions.addScope .entry entryScopeName (Stmt.declaresAll program.body).reverse).2

end SymbolTable

end JasminGen
