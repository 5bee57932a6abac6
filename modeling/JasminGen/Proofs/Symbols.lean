/-
  JasminGen.Proofs.Symbols

  What is in a symbol table. The table of a program has the scopes of its structs, its
  functions and its body, in this order after the root, and knows their signatures and
  layouts. A scope that is looked up by kind and name is the last one with that kind and
  name, and it can be read as long as scope numbers do not wrap.

  Main results: `SymbolTable.scopes_ofProgram`, `SymbolTable.function?_eq`,
  `SymbolTable.childScope?_cases`, `SymbolTable.scope_function`.
-/

import JasminGen.Symbol.Table
import Mathlib.Data.List.Nodup

namespace JasminGen

/-- The scope of a struct in the table of a program. -/
def StructDef.scope (s : StructDef) : Scope :=
  ⟨.struct, some s.name, (s.fields.map FieldDef.binding).reverse⟩

/-- The scope of a function in the table of a program. -/
def FunctionDef.scope (f : FunctionDef) : Scope :=
  ⟨.function, some f.name, (f.params ++ Stmt.declaresAll f.body).reverse⟩

/-- The scope of the body in the table of a program. -/
def Program.entryScope (program : Program) : Scope :=
  ⟨.entry, some entryScopeName, (Stmt.declaresAll program.body).reverse⟩

def FunctionDef.signature (f : FunctionDef) : Signature :=
  ⟨f.name, f.params, f.result⟩

def StructDef.layout (s : StructDef) : Layout :=
  ⟨s.name, s.fields.map FieldDef.binding⟩

namespace SymbolTable

-- ============================================================================
-- The table of a program
-- ============================================================================

/-- The scopes of a table, in order of creation. -/
def scopeList (table : SymbolTable) : List Scope :=
  table.scopes.items.toList

theorem addStructs (structs : List StructDef) (table : SymbolTable) :
    (structs.foldl addStruct table).scopeList = table.scopeList ++ structs.map StructDef.scope ∧
      (structs.foldl addStruct table).functions = table.functions ∧
      (structs.foldl addStruct table).structs =
        (structs.map StructDef.layout).reverse ++ table.structs := by
  induction structs generalizing table with
  | nil => simp
  | cons s rest ih =>
      obtain ⟨hscopes, hfunctions, hstructs⟩ := ih (table.addStruct s)
      have hadded : (table.addStruct s).scopeList = table.scopeList ++ [s.scope] :=
        Array.toList_push
      refine ⟨?_, hfunctions, ?_⟩
      · rw [List.foldl_cons, hscopes, hadded, List.append_assoc]
        rfl
      · rw [List.foldl_cons, hstructs]
        simp [addStruct, declareStruct, addScope, StructDef.layout]

theorem addFunctions (functions : List FunctionDef) (table : SymbolTable) :
    (functions.foldl addFunction table).scopeList =
        table.scopeList ++ functions.map FunctionDef.scope ∧
      (functions.foldl addFunction table).functions =
        (functions.map FunctionDef.signature).reverse ++ table.functions ∧
      (functions.foldl addFunction table).structs = table.structs := by
  induction functions generalizing table with
  | nil => simp
  | cons f rest ih =>
      obtain ⟨hscopes, hfunctions, hstructs⟩ := ih (table.addFunction f)
      have hadded : (table.addFunction f).scopeList = table.scopeList ++ [f.scope] :=
        Array.toList_push
      refine ⟨?_, ?_, hstructs⟩
      · rw [List.foldl_cons, hscopes, hadded, List.append_assoc]
        rfl
      · rw [List.foldl_cons, hfunctions]
        simp [addFunction, FunctionDef.signature, addScope]

variable (program : Program)

theorem scopes_ofProgram :
    (ofProgram program).scopeList = ⟨.root, none, []⟩ :: (program.structs.map StructDef.scope ++
      (program.functions.map FunctionDef.scope ++ [program.entryScope])) := by
  have hstructs := (addStructs program.structs empty).1
  have hfunctions := (addFunctions program.functions (program.structs.foldl addStruct empty)).1
  have hentry : (ofProgram program).scopeList = (program.functions.foldl addFunction
      (program.structs.foldl addStruct empty)).scopeList ++ [program.entryScope] :=
    Array.toList_push
  have hempty : empty.scopeList = [⟨.root, none, []⟩] := rfl
  rw [hentry, hfunctions, hstructs, hempty]
  simp

theorem functions_ofProgram :
    (ofProgram program).functions = (program.functions.map FunctionDef.signature).reverse := by
  have hstructs := (addStructs program.structs empty).2.1
  have hfunctions := (addFunctions program.functions (program.structs.foldl addStruct empty)).2.1
  change (program.functions.foldl addFunction
    (program.structs.foldl addStruct empty)).functions = _
  rw [hfunctions, hstructs]
  exact List.append_nil _

theorem structs_ofProgram :
    (ofProgram program).structs = (program.structs.map StructDef.layout).reverse := by
  have hstructs := (addStructs program.structs empty).2.2
  have hfunctions := (addFunctions program.functions (program.structs.foldl addStruct empty)).2.2
  change (program.functions.foldl addFunction
    (program.structs.foldl addStruct empty)).structs = _
  rw [hfunctions, hstructs]
  exact List.append_nil _

-- ============================================================================
-- Functions and structs by name
-- ============================================================================

theorem isSome_function?_iff (table : SymbolTable) (name : String) :
    (table.function? name).isSome ↔ name ∈ table.functions.map Signature.name := by
  simp [function?, List.find?_isSome]

theorem function?_of_lookup {table : SymbolTable} {id : ScopeId} {name : String}
    {found : Option Signature} (h : table.lookupFunction id name = .ok found) :
    table.function? name = found := by
  rw [lookupFunction] at h
  cases hs : table.scope id with
  | error fault =>
      rw [hs] at h
      cases h
  | ok s =>
      rw [hs] at h
      exact Except.ok.inj h

/-- The functions of the table of a program are those of the program. -/
theorem isSome_function?_ofProgram (name : String) :
    name ∈ program.functions.map FunctionDef.name ↔
      ((ofProgram program).function? name).isSome := by
  rw [isSome_function?_iff, functions_ofProgram]
  simp [FunctionDef.signature]

theorem isSome_struct?_ofProgram (name : String) :
    name ∈ program.structs.map StructDef.name ↔ ((ofProgram program).struct? name).isSome := by
  have hnames : (ofProgram program).structs.map Layout.name =
      (program.structs.map StructDef.name).reverse := by
    rw [structs_ofProgram, List.map_reverse, List.map_map]
    rfl
  rw [struct?, List.find?_isSome, ← List.mem_reverse, ← hnames]
  simp

/-- A function has its own signature if no other function has its name. -/
theorem function?_eq {program : Program} (hdistinct : (program.functions.map FunctionDef.name).Nodup)
    {f : FunctionDef} (hf : f ∈ program.functions) :
    (ofProgram program).function? f.name = some f.signature := by
  have hsome := (isSome_function?_ofProgram program f.name).mp (List.mem_map_of_mem hf)
  obtain ⟨signature, hsignature⟩ := Option.isSome_iff_exists.mp hsome
  have hmem : signature ∈ (ofProgram program).functions := List.mem_of_find?_eq_some hsignature
  have hname : signature.name = f.name := by simpa using List.find?_some hsignature
  rw [functions_ofProgram, List.mem_reverse, List.mem_map] at hmem
  obtain ⟨g, hg, rfl⟩ := hmem
  obtain rfl : g = f := List.inj_on_of_nodup_map hdistinct hg hf hname
  exact hsignature

-- ============================================================================
-- Scopes by kind and name
-- ============================================================================

/-- A scope of the given kind and name. -/
def Matches (kind : ScopeKind) (name : String) (s : Scope) : Prop :=
  s.kind = kind ∧ s.name = some name

theorem lastMatch_cases (kind : ScopeKind) (name : String) :
    ∀ (scopes : List Scope) (place : Nat),
      (childScope?.lastMatch kind name place scopes = none ∧
        ∀ s ∈ scopes, ¬ Matches kind name s) ∨
      ∃ before s after, scopes = before ++ s :: after ∧ Matches kind name s ∧
        (∀ later ∈ after, ¬ Matches kind name later) ∧
        childScope?.lastMatch kind name place scopes = some (place + before.length)
  | [], place => .inl ⟨rfl, by simp⟩
  | s :: rest, place => by
      rcases lastMatch_cases kind name rest (place + 1) with
        ⟨hnone, hrest⟩ | ⟨before, found, after, rfl, hfound, hafter, hlast⟩
      · by_cases hs : s.kind = kind ∧ s.name = some name
        · refine .inr ⟨[], s, rest, rfl, hs, hrest, ?_⟩
          rw [childScope?.lastMatch, hnone]
          simp [hs]
        · refine .inl ⟨?_, List.forall_mem_cons.mpr ⟨hs, hrest⟩⟩
          rw [childScope?.lastMatch, hnone]
          simp [hs]
      · refine .inr ⟨s :: before, found, after, rfl, hfound, hafter, ?_⟩
        rw [childScope?.lastMatch, hlast, List.length_cons]
        simp only [Option.some.injEq]
        omega

/-- The scope of a kind and name is the last one there is, and has its place as its id. -/
theorem childScope?_cases (table : SymbolTable) (kind : ScopeKind) (name : String) :
    (table.childScope? kind name = none ∧ ∀ s ∈ table.scopeList, ¬ Matches kind name s) ∨
    ∃ before s after, table.scopeList = before ++ s :: after ∧ Matches kind name s ∧
      (∀ later ∈ after, ¬ Matches kind name later) ∧
      table.childScope? kind name = some (Index.ofNat before.length) := by
  rcases lastMatch_cases kind name table.scopeList 0 with
    ⟨hnone, hall⟩ | ⟨before, s, after, heq, hs, hafter, hlast⟩
  · refine .inl ⟨?_, hall⟩
    rw [childScope?]
    exact congrArg (Option.map _) hnone
  · refine .inr ⟨before, s, after, heq, hs, hafter, ?_⟩
    rw [Nat.zero_add] at hlast
    rw [childScope?]
    exact congrArg (Option.map _) hlast

theorem scope_eq (table : SymbolTable) (id : ScopeId) {s : Scope}
    (h : table.scopeList[id.number.toNat]? = some s) : table.scope id = .ok s := by
  have hget : table.scopes.get? id = some s := by
    rw [← h, scopeList, Array.getElem?_toList]
    rfl
  rw [scope, Indexed.get, hget]

theorem scope_ofNat_lt {table : SymbolTable} {place : Nat} (h : place < table.scopeList.length) :
    ∃ s, table.scope (Index.ofNat place) = .ok s := by
  have hplace : (Index.ofNat place : ScopeId).number.toNat < table.scopeList.length :=
    Nat.lt_of_le_of_lt (Nat.mod_le place _) h
  exact ⟨_, table.scope_eq _ (List.getElem?_eq_getElem hplace)⟩

/-- A scope that is found by kind and name can be read. -/
theorem scope_of_childScope? {table : SymbolTable} {kind : ScopeKind} {name : String}
    {id : ScopeId} (h : table.childScope? kind name = some id) :
    ∃ s, table.scope id = .ok s := by
  rcases table.childScope?_cases kind name with ⟨hnone, -⟩ | ⟨before, s, after, heq, -, -, hid⟩
  · rw [hnone] at h
    cases h
  · rw [hid] at h
    cases h
    refine scope_ofNat_lt ?_
    rw [heq]
    simp

/-- The scope at a place can be read, if there is a number for the place. -/
theorem scope_of_place {table : SymbolTable} {before after : List Scope} {s : Scope}
    (h : table.scopeList = before ++ s :: after) (hlt : before.length < UInt32.size) :
    table.scope (Index.ofNat before.length) = .ok s := by
  refine table.scope_eq _ ?_
  have hplace : (Index.ofNat before.length : ScopeId).number.toNat = before.length :=
    Nat.mod_eq_of_lt hlt
  rw [hplace, h, List.getElem?_append_right (Nat.le_refl _), Nat.sub_self]
  rfl

/-- All scopes can be read, if there are not more of them than numbers for them. -/
theorem scope_ofNat {table : SymbolTable} {before after : List Scope} {s : Scope}
    (h : table.scopeList = before ++ s :: after) (hsize : table.scopeList.length ≤ UInt32.size) :
    table.scope (Index.ofNat before.length) = .ok s := by
  apply scope_of_place h
  rw [h, List.length_append, List.length_cons] at hsize
  omega

/-- What is found by kind and name is a scope of that kind and name. -/
theorem matches_of_childScope? {table : SymbolTable} {kind : ScopeKind} {name : String}
    {id : ScopeId} (h : table.childScope? kind name = some id)
    (hsize : table.scopeList.length ≤ UInt32.size) :
    ∃ s ∈ table.scopeList, Matches kind name s ∧ table.scope id = .ok s := by
  rcases table.childScope?_cases kind name with ⟨hnone, -⟩ | ⟨before, s, after, heq, hs, -, hid⟩
  · rw [hnone] at h
    cases h
  · rw [hid] at h
    cases h
    exact ⟨s, by simp [heq], hs, scope_ofNat heq hsize⟩

theorem isSome_childScope? {table : SymbolTable} {kind : ScopeKind} {name : String} {s : Scope}
    (hs : s ∈ table.scopeList) (hmatches : Matches kind name s) :
    ∃ id, table.childScope? kind name = some id := by
  rcases table.childScope?_cases kind name with ⟨-, hall⟩ | ⟨before, found, after, -, -, -, hid⟩
  · exact absurd hmatches (hall s hs)
  · exact ⟨_, hid⟩

-- ============================================================================
-- The scopes of a program
-- ============================================================================

section OfProgram

variable {program : Program}

theorem scope_root : (ofProgram program).scope root = .ok ⟨.root, none, []⟩ := by
  refine scope_eq _ _ ?_
  rw [scopes_ofProgram]
  rfl

theorem length_scopes_ofProgram :
    (ofProgram program).scopeList.length =
      program.structs.length + program.functions.length + 2 := by
  rw [scopes_ofProgram]
  simp only [List.length_cons, List.length_append, List.length_map, List.length_nil]
  omega

theorem childScope?_struct {s : StructDef} (hs : s ∈ program.structs) :
    ∃ id, (ofProgram program).childScope? .struct s.name = some id := by
  refine isSome_childScope? (s := s.scope) ?_ ⟨rfl, rfl⟩
  rw [scopes_ofProgram]
  simp only [List.mem_cons, List.mem_append]
  exact .inr (.inl (List.mem_map_of_mem hs))

theorem childScope?_function {f : FunctionDef} (hf : f ∈ program.functions) :
    ∃ id, (ofProgram program).childScope? .function f.name = some id := by
  refine isSome_childScope? (s := f.scope) ?_ ⟨rfl, rfl⟩
  rw [scopes_ofProgram]
  simp only [List.mem_cons, List.mem_append]
  exact .inr (.inr (.inl (List.mem_map_of_mem hf)))

theorem childScope?_entry :
    ∃ id, (ofProgram program).childScope? .entry entryScopeName = some id := by
  refine isSome_childScope? (s := program.entryScope) ?_ ⟨rfl, rfl⟩
  rw [scopes_ofProgram]
  simp

/-- Every scope but the root comes from a struct, a function or the body. -/
theorem mem_scopes_ofProgram {s : Scope} (h : s ∈ (ofProgram program).scopeList) :
    s = ⟨.root, none, []⟩ ∨ (∃ d ∈ program.structs, s = d.scope) ∨
      (∃ f ∈ program.functions, s = f.scope) ∨ s = program.entryScope := by
  rw [scopes_ofProgram] at h
  simp only [List.mem_cons, List.mem_append, List.mem_map, List.not_mem_nil, or_false] at h
  rcases h with h | ⟨d, hd, rfl⟩ | ⟨f, hf, rfl⟩ | h
  · exact .inl h
  · exact .inr (.inl ⟨d, hd, rfl⟩)
  · exact .inr (.inr (.inl ⟨f, hf, rfl⟩))
  · exact .inr (.inr (.inr h))

/-- A function is lowered in its own scope if no other function has its name. -/
theorem scope_function (hdistinct : (program.functions.map FunctionDef.name).Nodup)
    (hsize : program.structs.length + program.functions.length + 2 ≤ UInt32.size)
    {f : FunctionDef} (hf : f ∈ program.functions) {id : ScopeId}
    (hid : (ofProgram program).childScope? .function f.name = some id) :
    (ofProgram program).scope id = .ok f.scope := by
  rw [← length_scopes_ofProgram] at hsize
  obtain ⟨s, hs, ⟨hkind, hname⟩, hscope⟩ := matches_of_childScope? hid hsize
  rcases mem_scopes_ofProgram hs with rfl | ⟨d, -, rfl⟩ | ⟨g, hg, rfl⟩ | rfl
  · cases hkind
  · cases hkind
  · obtain rfl : g = f := List.inj_on_of_nodup_map hdistinct hg hf (Option.some.inj hname)
    exact hscope
  · cases hkind

/-- What is found as the scope of a struct is the scope of one. -/
theorem scope_struct (hsize : program.structs.length < UInt32.size) {name : String} {id : ScopeId}
    (hid : (ofProgram program).childScope? .struct name = some id) :
    ∃ s, (ofProgram program).scope id = .ok s ∧ s.kind = .struct := by
  rcases childScope?_cases (ofProgram program) .struct name with
    ⟨hnone, -⟩ | ⟨before, s, after, heq, ⟨hkind, -⟩, -, hfound⟩
  · rw [hnone] at hid
    cases hid
  · rw [hfound] at hid
    cases hid
    refine ⟨s, scope_of_place heq ?_, hkind⟩
    -- the scopes after those of the structs are of other kinds
    by_contra hlt
    have hplace : (ofProgram program).scopeList[before.length]? = some s := by
      rw [heq, List.getElem?_append_right (Nat.le_refl _), Nat.sub_self]
      rfl
    rw [scopes_ofProgram, ← List.cons_append, List.getElem?_append_right (by simp; omega)] at hplace
    have hlater := List.mem_of_getElem? hplace
    simp only [List.mem_append, List.mem_map, List.mem_singleton] at hlater
    rcases hlater with ⟨f, -, rfl⟩ | rfl
    · cases hkind
    · cases hkind

/-- The body is lowered in its own scope. -/
theorem scope_entry (hsize : program.structs.length + program.functions.length + 2 ≤ UInt32.size)
    {id : ScopeId} (hid : (ofProgram program).childScope? .entry entryScopeName = some id) :
    (ofProgram program).scope id = .ok program.entryScope := by
  rw [← length_scopes_ofProgram] at hsize
  obtain ⟨s, hs, ⟨hkind, -⟩, hscope⟩ := matches_of_childScope? hid hsize
  rcases mem_scopes_ofProgram hs with rfl | ⟨d, -, rfl⟩ | ⟨g, -, rfl⟩ | rfl
  · cases hkind
  · cases hkind
  · cases hkind
  · exact hscope

end OfProgram

end SymbolTable

end JasminGen
