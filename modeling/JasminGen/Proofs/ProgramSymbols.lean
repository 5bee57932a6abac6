/-
  JasminGen.Proofs.ProgramSymbols

  The symbol table of a program says what the program declares, and no more. Names may
  repeat: the last definition of a function or struct is the one that is found, and the
  last declaration of a variable in its body, at whatever depth, gives the variable its
  type. The root scope has no variables.

  Main definitions: `SourceNode.locals`, `SymbolTable.HasScope`, `SymbolTable.Describes`.
  Main result: `program_declarations_recorded`.
-/

import JasminGen.Proofs.Declarations
import JasminGen.Proofs.Lowering.Constructs

namespace JasminGen

-- ============================================================================
-- The variables of a body
-- ============================================================================

/-- The variable that a construct declares by itself. -/
def SourceNode.local? : SourceNode → Option Binding
  | .stmt (.declare name ty _) => some ⟨name, ty⟩
  | _ => none

namespace SourceNode

/-- The variables that constructs declare by themselves, in order. -/
def locals (nodes : List SourceNode) : List Binding :=
  nodes.filterMap local?

@[simp] theorem locals_nil : locals [] = [] := rfl

@[simp] theorem locals_append (nodes more : List SourceNode) :
    locals (nodes ++ more) = locals nodes ++ locals more :=
  List.filterMap_append

@[simp] theorem locals_cons_expr (e : Expr) (rest : List SourceNode) :
    locals (.expr e :: rest) = locals rest := rfl

@[simp] theorem locals_cons_stmt (s : Stmt) (rest : List SourceNode) :
    locals (.stmt s :: rest) = (local? (.stmt s)).toList ++ locals rest := by
  rw [locals, List.filterMap_cons]
  cases local? (.stmt s) <;> rfl

end SourceNode

mutual

/-- Expressions declare nothing. -/
@[simp] theorem Expr.locals_inside : ∀ e : Expr, SourceNode.locals e.inside = []
  | .int _ | .bool _ | .ident _ => by simp [inside]
  | .group e | .unary _ e | .size e | .field e _ => by simp [inside, locals_inside e]
  | .binary _ l r | .index l r | .append l r => by
      simp [inside, locals_inside l, locals_inside r]
  | .call target args => by simp [inside, locals_inside target, locals_nodesOf args]

@[simp] theorem Expr.locals_nodesOf : ∀ es : List Expr, SourceNode.locals (nodesOf es) = []
  | [] => by simp [nodesOf]
  | e :: rest => by simp [nodesOf, locals_inside e, locals_nodesOf rest]

end

namespace Stmt

mutual

/-- The variables of a statement are its own and those inside of it. -/
theorem declares_eq_locals : ∀ s : Stmt,
    s.declares = (SourceNode.local? (.stmt s)).toList ++ SourceNode.locals s.inside
  | .block body => by simp [declares, inside, SourceNode.local?, declaresAll_eq_locals body]
  | .declare _ _ none | .declare _ _ (some _) => by simp [declares, inside, SourceNode.local?]
  | .cond _ positive none => by
      simp [declares, inside, SourceNode.local?, declares_eq_locals positive]
  | .cond _ positive (some negative) => by
      simp [declares, inside, SourceNode.local?, declares_eq_locals positive,
        declares_eq_locals negative]
  | .loop _ body => by simp [declares, inside, SourceNode.local?, declares_eq_locals body]
  | .assign _ _ | .call _ _ | .ret none | .ret (some _) | .display _ | .append _ _ | .size _ => by
      simp [declares, inside, SourceNode.local?]

theorem declaresAll_eq_locals : ∀ body : List Stmt,
    declaresAll body = SourceNode.locals (nodesOf body)
  | [] => by simp [declaresAll, nodesOf]
  | s :: rest => by
      simp [declaresAll, nodesOf, declares_eq_locals s, declaresAll_eq_locals rest]

end

end Stmt

/-- The variables of a function: its parameters, then what its body declares at any
    depth. -/
def FunctionDef.bindings (f : FunctionDef) : List Binding :=
  f.params ++ SourceNode.locals (Stmt.nodesOf f.body)

-- ============================================================================
-- Last definitions
-- ============================================================================

/-- The last element with a name has no element with that name behind it. -/
theorem lastNamed_eq_some {α : Type} {nameOf : α → String} {xs : List α} {name : String} {x : α}
    (h : lastNamed nameOf xs name = some x) :
    ∃ before after, xs = before ++ x :: after ∧ nameOf x = name ∧
      ∀ y ∈ after, nameOf y ≠ name := by
  obtain ⟨hx, after, before, heq, hafter⟩ := List.find?_eq_some_iff_append.mp h
  refine ⟨before.reverse, after.reverse, ?_, by simpa using hx, ?_⟩
  · rw [← List.reverse_reverse xs, heq]
    simp
  · intro y hy
    simpa using hafter y (List.mem_reverse.mp hy)

theorem lastNamed_eq_none {α : Type} {nameOf : α → String} {xs : List α} {name : String}
    (h : lastNamed nameOf xs name = none) : ∀ x ∈ xs, nameOf x ≠ name := by
  intro x hx
  simpa using List.find?_eq_none.mp h x (List.mem_reverse.mpr hx)

theorem lastNamed_map {α β : Type} {nameOf : α → String} {nameOf' : β → String} {g : α → β}
    (h : ∀ x, nameOf' (g x) = nameOf x) (xs : List α) (name : String) :
    lastNamed nameOf' (xs.map g) name = (lastNamed nameOf xs name).map g := by
  rw [lastNamed, lastNamed, ← List.map_reverse, List.find?_map]
  simp only [Function.comp_def, h]

-- ============================================================================
-- Scopes
-- ============================================================================

namespace SymbolTable

/-- The scope that is found for a kind and a name is of that kind and name, and has the
    variables that are given, each with the type of its last binding, and no others. -/
def HasScope (table : SymbolTable) (kind : ScopeKind) (name : String) (bindings : List Binding) :
    Prop :=
  ∃ id s, table.childScope? kind name = some id ∧ table.scope id = .ok s ∧ s.kind = kind ∧
    s.name = some name ∧ (∀ x, s.find? x = lastType bindings x) ∧
    ∀ x, table.lookupVariable id x = .ok (lastType bindings x)

theorem lastMatch_eq_some {kind : ScopeKind} {name : String} {after : List Scope} {s : Scope}
    (hs : Matches kind name s) (hafter : ∀ later ∈ after, ¬ Matches kind name later) :
    ∀ (before : List Scope) (place : Nat),
      childScope?.lastMatch kind name place (before ++ s :: after) = some (place + before.length)
  | [], place => by
      rcases lastMatch_cases kind name after (place + 1) with
        ⟨hnone, -⟩ | ⟨before, found, rest, rfl, hfound, -, -⟩
      · rw [List.nil_append, childScope?.lastMatch, hnone]
        exact if_pos hs
      · exact absurd hfound (hafter found (by simp))
  | first :: before, place => by
      rw [List.cons_append, childScope?.lastMatch, lastMatch_eq_some hs hafter before (place + 1),
        List.length_cons]
      simp only [Option.some.injEq]
      omega

/-- The last scope of a kind and name is found, and can be read. -/
theorem exists_childScope? {table : SymbolTable} {kind : ScopeKind} {name : String}
    (before after : List Scope) {s : Scope} (hsize : table.scopeList.length ≤ UInt32.size)
    (heq : table.scopeList = before ++ s :: after) (hs : Matches kind name s)
    (hafter : ∀ later ∈ after, ¬ Matches kind name later) :
    ∃ id, table.childScope? kind name = some id ∧ table.scope id = .ok s := by
  refine ⟨Index.ofNat before.length, ?_, scope_ofNat heq hsize⟩
  have hlast := lastMatch_eq_some hs hafter before 0
  rw [← heq, Nat.zero_add] at hlast
  exact congrArg (Option.map _) hlast

/-- Of definitions that have scopes of one kind, the last one with a name has its scope
    found. -/
theorem exists_childScope?_of_lastNamed {α : Type} {table : SymbolTable} (kind : ScopeKind)
    {name : String} {nameOf : α → String} {scopeOf : α → Scope} (before : List Scope)
    {after : List Scope} {xs : List α} {x : α} (hsize : table.scopeList.length ≤ UInt32.size)
    (heq : table.scopeList = before ++ (xs.map scopeOf ++ after))
    (hscopes : ∀ y, Matches kind name (scopeOf y) ↔ nameOf y = name)
    (hafter : ∀ later ∈ after, ¬ Matches kind name later)
    (hx : lastNamed nameOf xs name = some x) :
    ∃ id, table.childScope? kind name = some id ∧ table.scope id = .ok (scopeOf x) := by
  obtain ⟨first, rest, rfl, hname, hrest⟩ := lastNamed_eq_some hx
  refine exists_childScope? (before ++ first.map scopeOf) (rest.map scopeOf ++ after) hsize ?_
    ((hscopes x).mpr hname) ?_
  · rw [heq]
    simp
  · intro later hlater
    rcases List.mem_append.mp hlater with hlater | hlater
    · obtain ⟨y, hy, rfl⟩ := List.mem_map.mp hlater
      exact mt (hscopes y).mp (hrest y hy)
    · exact hafter later hlater

section OfProgram

variable {program : Program}

theorem lookupVariable_ofProgram {id : ScopeId} {s : Scope}
    (hs : (ofProgram program).scope id = .ok s) (x : String) :
    (ofProgram program).lookupVariable id x = .ok (s.find? x) := by
  rw [lookupVariable, hs]
  cases hfound : s.find? x with
  | some ty => simp only [hfound]
  | none =>
      simp only [hfound]
      cases hparent : parent? s with
      | none => rfl
      | some outer =>
          have houter : outer = root := by
            unfold parent? at hparent
            split at hparent
            · cases hparent
            · exact (Option.some.inj hparent).symm
          subst houter
          simp only [scope_root]
          rfl

/-- A scope that is found and read has the variables of its bindings. -/
theorem hasScope_of_scope {kind : ScopeKind} {name : String} {bindings : List Binding}
    {id : ScopeId} (hid : (ofProgram program).childScope? kind name = some id)
    (hs : (ofProgram program).scope id = .ok ⟨kind, some name, bindings.reverse⟩) :
    (ofProgram program).HasScope kind name bindings :=
  ⟨id, _, hid, hs, rfl, rfl, fun _ => rfl, fun x => lookupVariable_ofProgram hs x⟩

variable (hsize : program.structs.length + program.functions.length + 2 ≤ UInt32.size)
include hsize

theorem hasScope_struct {name : String} {d : StructDef}
    (hd : lastNamed StructDef.name program.structs name = some d) :
    (ofProgram program).HasScope .struct name (d.fields.map FieldDef.binding) := by
  rw [← length_scopes_ofProgram] at hsize
  have hafter : ∀ later ∈ program.functions.map FunctionDef.scope ++ [program.entryScope],
      ¬ Matches .struct name later := by
    rintro later hlater ⟨hkind, -⟩
    rcases List.mem_append.mp hlater with hlater | hlater
    · obtain ⟨f, -, rfl⟩ := List.mem_map.mp hlater
      cases hkind
    · cases List.mem_singleton.mp hlater
      cases hkind
  obtain ⟨id, hid, hs⟩ := exists_childScope?_of_lastNamed .struct [⟨.root, none, []⟩] hsize
    (scopes_ofProgram program) (by simp [Matches, StructDef.scope]) hafter hd
  obtain ⟨_, _, _, rfl, _⟩ := lastNamed_eq_some hd
  exact hasScope_of_scope hid hs

theorem hasScope_function {name : String} {f : FunctionDef}
    (hf : lastNamed FunctionDef.name program.functions name = some f) :
    (ofProgram program).HasScope .function name f.bindings := by
  rw [← length_scopes_ofProgram] at hsize
  obtain ⟨id, hid, hs⟩ := exists_childScope?_of_lastNamed .function
    (⟨.root, none, []⟩ :: program.structs.map StructDef.scope) hsize
    (scopes_ofProgram program) (by simp [Matches, FunctionDef.scope])
    (by simp [Matches, Program.entryScope]) hf
  obtain ⟨_, _, _, rfl, _⟩ := lastNamed_eq_some hf
  rw [FunctionDef.scope, Stmt.declaresAll_eq_locals] at hs
  exact hasScope_of_scope hid hs

theorem hasScope_entry : (ofProgram program).HasScope .entry entryScopeName
    (SourceNode.locals (Stmt.nodesOf program.body)) := by
  obtain ⟨id, hid⟩ : ∃ id, (ofProgram program).childScope? .entry entryScopeName = some id :=
    childScope?_entry
  have hs := scope_entry hsize hid
  rw [Program.entryScope, Stmt.declaresAll_eq_locals] at hs
  exact hasScope_of_scope hid hs

omit hsize in
/-- No scope is found for a name that is not declared. -/
theorem childScope?_eq_none {kind : ScopeKind} {name : String}
    (hstructs : kind = .struct → ∀ d ∈ program.structs, d.name ≠ name)
    (hfunctions : kind = .function → ∀ f ∈ program.functions, f.name ≠ name)
    (hentry : kind = .entry → entryScopeName ≠ name) :
    (ofProgram program).childScope? kind name = none := by
  rcases (ofProgram program).childScope?_cases kind name with
    ⟨hnone, -⟩ | ⟨before, s, after, heq, ⟨hkind, hname⟩, -, -⟩
  · exact hnone
  · have hmem : s ∈ (ofProgram program).scopeList := by simp [heq]
    exfalso
    rcases mem_scopes_ofProgram hmem with rfl | ⟨d, hd, rfl⟩ | ⟨f, hf, rfl⟩ | rfl
    · cases hname
    · exact hstructs hkind.symm d hd (Option.some.inj hname)
    · exact hfunctions hkind.symm f hf (Option.some.inj hname)
    · exact hentry hkind.symm (Option.some.inj hname)

end OfProgram

/-- The table says what the program declares, and nothing else. -/
structure Describes (table : SymbolTable) (program : Program) : Prop where
  function_scope : ∀ name, match lastNamed FunctionDef.name program.functions name with
    | some f => table.HasScope .function name f.bindings
    | none => table.childScope? .function name = none
  struct_scope : ∀ name, match lastNamed StructDef.name program.structs name with
    | some d => table.HasScope .struct name (d.fields.map FieldDef.binding)
    | none => table.childScope? .struct name = none
  entry_scope : table.HasScope .entry entryScopeName
    (SourceNode.locals (Stmt.nodesOf program.body))
  entry_other : ∀ name, name ≠ entryScopeName → table.childScope? .entry name = none
  root_scope : ∃ s, table.scope root = .ok s ∧ s.kind = .root ∧ ∀ x, s.find? x = none
  root_other : ∀ name, table.childScope? .root name = none
  function_eq : ∀ id s name, table.scope id = .ok s → table.lookupFunction id name =
    .ok ((lastNamed FunctionDef.name program.functions name).map FunctionDef.signature)
  struct_eq : ∀ id s name, table.scope id = .ok s → table.lookupStruct id name =
    .ok ((lastNamed StructDef.name program.structs name).map StructDef.layout)

end SymbolTable

/-- The table of a program describes it, however names repeat, if there are not more scopes
    than numbers for them. -/
theorem program_declarations_recorded (program : Program)
    (hsize : program.structs.length + program.functions.length + 2 ≤ UInt32.size) :
    (SymbolTable.ofProgram program).Describes program where
  function_scope := by
    intro name
    cases hf : lastNamed FunctionDef.name program.functions name with
    | some f => exact SymbolTable.hasScope_function hsize hf
    | none =>
        exact SymbolTable.childScope?_eq_none (by simp) (fun _ => lastNamed_eq_none hf) (by simp)
  struct_scope := by
    intro name
    cases hd : lastNamed StructDef.name program.structs name with
    | some d => exact SymbolTable.hasScope_struct hsize hd
    | none =>
        exact SymbolTable.childScope?_eq_none (fun _ => lastNamed_eq_none hd) (by simp) (by simp)
  entry_scope := SymbolTable.hasScope_entry hsize
  entry_other := fun _ hname =>
    SymbolTable.childScope?_eq_none (by simp) (by simp) fun _ => hname.symm
  root_scope := ⟨_, SymbolTable.scope_root, rfl, fun _ => rfl⟩
  root_other := fun _ => SymbolTable.childScope?_eq_none (by simp) (by simp) (by simp)
  function_eq := by
    intro id s name hs
    rw [SymbolTable.lookupFunction, hs, SymbolTable.function?, SymbolTable.functions_ofProgram]
    exact congrArg Except.ok (lastNamed_map (fun _ => rfl) _ _)
  struct_eq := by
    intro id s name hs
    rw [SymbolTable.lookupStruct, hs, SymbolTable.struct?, SymbolTable.structs_ofProgram]
    exact congrArg Except.ok (lastNamed_map (fun _ => rfl) _ _)

/-- A function and a struct are defined twice, and a variable is declared in a loop of the
    last definition and again in the branch of a conditional. -/
def repeatedNames : Program where
  structs := [⟨"P", [⟨"a", .int, none⟩]⟩, ⟨"P", [⟨"b", .bool, none⟩, ⟨"b", .int, none⟩]⟩]
  body := [.block [.declare "m" .bool none]]
  functions := [⟨"f", [⟨"x", .int⟩], .int, [.declare "y" .int none]⟩,
    ⟨"f", [⟨"x", .bool⟩, ⟨"z", .int⟩], .void,
      [.loop (.int 2) (.declare "x" (.list .int) none),
        .cond (.bool true) (.block []) (some (.declare "x" .int none))]⟩]

theorem repeatedNames_recorded :
    (SymbolTable.ofProgram repeatedNames).HasScope .function "f"
        [⟨"x", .bool⟩, ⟨"z", .int⟩, ⟨"x", .list .int⟩, ⟨"x", .int⟩] ∧
      lastType [⟨"x", .bool⟩, ⟨"z", .int⟩, ⟨"x", .list .int⟩, ⟨"x", .int⟩] "x" = some .int ∧
      (SymbolTable.ofProgram repeatedNames).HasScope .struct "P" [⟨"b", .bool⟩, ⟨"b", .int⟩] ∧
      (SymbolTable.ofProgram repeatedNames).HasScope .entry "main" [⟨"m", .bool⟩] ∧
      (SymbolTable.ofProgram repeatedNames).childScope? .function "P" = none := by
  have h := program_declarations_recorded repeatedNames (by decide)
  exact ⟨h.function_scope "f", rfl, h.struct_scope "P", h.entry_scope, h.function_scope "P"⟩

end JasminGen
