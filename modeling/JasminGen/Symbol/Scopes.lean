/-
  JasminGen.Symbol.Scopes

  The scopes of a symbol table as they are stored. Each scope has the id of the scope
  around it and tables of its own for child scopes, functions, structs and variables. A
  new scope is put below the root, and functions and structs are entered in the root. A
  look-up goes up from scope to scope, as long as there is one around.

  A table has the latest entry first, which hides older ones of the same key.

  Main definitions: `ScopeRecord`, `ScopeTree`, `ScopeTree.climb`, `ScopeTree.view`.
-/

import JasminGen.Symbol.Table

namespace JasminGen

/-- A scope with all that is stored in it. -/
structure ScopeRecord where
  id : ScopeId
  kind : ScopeKind
  /-- Only the root has no name. -/
  name : Option String
  parent : Option ScopeId
  children : List ((ScopeKind × String) × ScopeId)
  functions : List (String × Signature)
  structs : List (String × Layout)
  variableTypes : List (String × Ty)

namespace ScopeRecord

/-- A scope with nothing in it. -/
def new (id : ScopeId) (kind : ScopeKind) (name : Option String) (parent : Option ScopeId) :
    ScopeRecord :=
  ⟨id, kind, name, parent, [], [], [], []⟩

def variableTy? (s : ScopeRecord) (name : String) : Option Ty :=
  s.variableTypes.lookup name

def addChild (kind : ScopeKind) (name : String) (child : ScopeId) (s : ScopeRecord) :
    ScopeRecord :=
  { s with children := ((kind, name), child) :: s.children }

def addFunction (signature : Signature) (s : ScopeRecord) : ScopeRecord :=
  { s with functions := (signature.name, signature) :: s.functions }

def addStruct (layout : Layout) (s : ScopeRecord) : ScopeRecord :=
  { s with structs := (layout.name, layout) :: s.structs }

def addVariable (b : Binding) (s : ScopeRecord) : ScopeRecord :=
  { s with variableTypes := (b.name, b.ty) :: s.variableTypes }

/-- What a scope is without its place in the tree. -/
def view (s : ScopeRecord) : Scope :=
  ⟨s.kind, s.name, s.variableTypes.map fun (name, ty) => ⟨name, ty⟩⟩

end ScopeRecord

/-- The stored scopes, in order of creation. -/
structure ScopeTree where
  scopes : Indexed ScopeId ScopeRecord

namespace ScopeTree

/-- A tree with nothing but a root scope. -/
def new : ScopeTree :=
  let scopes : Indexed ScopeId ScopeRecord := .empty
  ⟨scopes.push (.new scopes.next .root none none)⟩

/-- The scope with an id that is expected to exist. -/
def scope (tree : ScopeTree) (id : ScopeId) : Except Fault ScopeRecord :=
  tree.scopes.get id

/-- Change a scope that is expected to exist. -/
def modifyScope (tree : ScopeTree) (id : ScopeId) (change : ScopeRecord → ScopeRecord) :
    Except Fault ScopeTree := do
  let scopes ← tree.scopes.modify id change
  return ⟨scopes⟩

/-! ## Declarations -/

/-- Add a scope below the root, and enter it in the root. -/
def createChild (tree : ScopeTree) (kind : ScopeKind) (name : String) :
    Except Fault (ScopeId × ScopeTree) := do
  let id := tree.scopes.next
  let added : ScopeTree := ⟨tree.scopes.push (.new id kind (some name) (some SymbolTable.root))⟩
  let entered ← added.modifyScope SymbolTable.root (.addChild kind name id)
  return (id, entered)

def declareVariable (tree : ScopeTree) (id : ScopeId) (b : Binding) : Except Fault ScopeTree :=
  tree.modifyScope id (.addVariable b)

/-- Declare variables in order. -/
def declareVariables (id : ScopeId) : List Binding → ScopeTree → Except Fault ScopeTree
  | [], tree => return tree
  | b :: rest, tree => do
    let declared ← tree.declareVariable id b
    declareVariables id rest declared

/-- Add a scope with its first variables, and enter in the root what it belongs to. -/
def declareScope (tree : ScopeTree) (kind : ScopeKind) (name : String) (bindings : List Binding)
    (enter : ScopeRecord → ScopeRecord) : Except Fault (ScopeId × ScopeTree) := do
  let (id, created) ← tree.createChild kind name
  let declared ← declareVariables id bindings created
  let entered ← declared.modifyScope SymbolTable.root enter
  return (id, entered)

/-- Add a function; its scope starts with the parameters. -/
def declareFunction (tree : ScopeTree) (signature : Signature) :
    Except Fault (ScopeId × ScopeTree) :=
  tree.declareScope .function signature.name signature.params (.addFunction signature)

/-- Add a struct; its scope starts with the fields. -/
def declareStruct (tree : ScopeTree) (layout : Layout) : Except Fault (ScopeId × ScopeTree) :=
  tree.declareScope .struct layout.name layout.fields (.addStruct layout)

/-- Add a scope for the program's body. -/
def declareEntry (tree : ScopeTree) : Except Fault (ScopeId × ScopeTree) :=
  tree.createChild .entry entryScopeName

/-! ## Look-ups -/

/-- The scope of a kind and name, as it is entered in the root. -/
def childScope? (tree : ScopeTree) (kind : ScopeKind) (name : String) :
    Except Fault (Option ScopeId) := do
  let rootScope ← tree.scope SymbolTable.root
  return rootScope.children.lookup (kind, name)

def entryScope? (tree : ScopeTree) : Except Fault (Option ScopeId) :=
  tree.childScope? .entry entryScopeName

/-- Go up from a scope until something is found or there is no scope around, through no
    more scopes than given. The scope around a scope is fetched before the scope itself is
    searched. -/
def climb {α : Type} (tree : ScopeTree) (find : ScopeRecord → Option α) :
    Nat → ScopeRecord → Option (Except Fault (Option α))
  | 0, _ => none
  | scopes + 1, s =>
    match s.parent with
    | none => some (.ok (find s))
    | some outer =>
      match tree.scope outer with
      | .error fault => some (.error fault)
      | .ok around =>
        match find s with
        | some found => some (.ok (some found))
        | none => climb tree find scopes around

/-- Go up from the scope of an id. A way through more scopes than there are comes back to
    one of them, so it has no end, and there is no result. -/
def lookup {α : Type} (tree : ScopeTree) (id : ScopeId) (find : ScopeRecord → Option α) :
    Option (Except Fault (Option α)) :=
  match tree.scope id with
  | .error fault => some (.error fault)
  | .ok s => tree.climb find tree.scopes.size s

def lookupFunction (tree : ScopeTree) (id : ScopeId) (name : String) :
    Option (Except Fault (Option Signature)) :=
  tree.lookup id fun s => s.functions.lookup name

def lookupStruct (tree : ScopeTree) (id : ScopeId) (name : String) :
    Option (Except Fault (Option Layout)) :=
  tree.lookup id fun s => s.structs.lookup name

def lookupVariable (tree : ScopeTree) (id : ScopeId) (name : String) :
    Option (Except Fault (Option Ty)) :=
  tree.lookup id fun s => s.variableTy? name

/-! ## The tree of a program -/

/-- A function with the variables of its body. -/
def addFunction (tree : ScopeTree) (f : FunctionDef) : Except Fault ScopeTree := do
  let (id, declared) ← tree.declareFunction ⟨f.name, f.params, f.result⟩
  declareVariables id (Stmt.declaresAll f.body) declared

def addStruct (tree : ScopeTree) (s : StructDef) : Except Fault ScopeTree := do
  let (_, declared) ← tree.declareStruct ⟨s.name, s.fields.map FieldDef.binding⟩
  return declared

/-- The tree of a program: its structs, its functions and its body, in this order. -/
def ofProgram (program : Program) : Except Fault ScopeTree := do
  let withStructs ← program.structs.foldlM addStruct new
  let withFunctions ← program.functions.foldlM addFunction withStructs
  let (id, declared) ← withFunctions.declareEntry
  declareVariables id (Stmt.declaresAll program.body) declared

/-! ## The table of a tree -/

/-- What a tree answers, without the ways through it: the functions and structs are those
    of the root. -/
def view (tree : ScopeTree) : SymbolTable where
  scopes := ⟨tree.scopes.items.map ScopeRecord.view⟩
  functions := (rootEntries ScopeRecord.functions).map Prod.snd
  structs := (rootEntries ScopeRecord.structs).map Prod.snd
where
  rootEntries {β : Type} (entries : ScopeRecord → List β) : List β :=
    match tree.scopes.get? SymbolTable.root with
    | some s => entries s
    | none => []

end ScopeTree

end JasminGen
