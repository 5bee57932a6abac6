/-
  JasminGen.Proofs.Declarations

  Scopes that come about by declarations in any order. Everything that a tree of scopes
  answers is read off the list of declarations here: the scopes are the created ones in
  order after the root, a name stands for its latest declaration, and a variable that a
  scope does not have is looked for in the root.

  The view of a tree is compared with the declarations one at a time: `BuiltBy.step` says
  what one more declaration adds, `ScopeTree.WellFormed.declare` that the tree goes along
  with its view, and `ScopeTree.records_of_declareAll` follows by induction.

  Main definitions: `Declaration`, `ScopeTree.declareAll`, `scopeHeads`, `boundIn`,
  `SymbolTable.BuiltBy`, `ScopeTree.Answers`. Main result: `declarations_recorded`.
-/

import JasminGen.Proofs.Scopes

namespace JasminGen

-- ============================================================================
-- Declarations
-- ============================================================================

/-- A declaration of something with a name. -/
inductive Declaration where
  | function (signature : Signature)
  | struct (layout : Layout)
  | entry
  /-- A variable of a scope. -/
  | binding (id : ScopeId) (b : Binding)

namespace Declaration

/-- The kind and the name of the scope that a declaration creates. -/
def head? : Declaration → Option (ScopeKind × Option String)
  | .function signature => some (.function, some signature.name)
  | .struct layout => some (.struct, some layout.name)
  | .entry => some (.entry, some entryScopeName)
  | .binding _ _ => none

/-- No declaration creates a root. -/
theorem head?_ne_root {d : Declaration} {head : ScopeKind × Option String}
    (h : d.head? = some head) : head.1 ≠ .root := by
  cases d <;> cases h <;> simp

def function? : Declaration → Option Signature
  | .function signature => some signature
  | _ => none

def struct? : Declaration → Option Layout
  | .struct layout => some layout
  | _ => none

/-- The variables that a declaration binds, each with the number of its scope, where
    `count` is the number of scopes before. -/
def bindings (count : Nat) : Declaration → List (Nat × Binding)
  | .function signature => signature.params.map fun b => (count, b)
  | .struct layout => layout.fields.map fun b => (count, b)
  | .entry => []
  | .binding id b => [(id.number.toNat, b)]

end Declaration

/-- Make a declaration; the id of the scope that it creates, if it creates one. -/
def SymbolTable.declare (table : SymbolTable) :
    Declaration → Except Fault (Option ScopeId × SymbolTable)
  | .function signature =>
    .ok (some (table.declareFunction signature).1, (table.declareFunction signature).2)
  | .struct layout => .ok (some (table.declareStruct layout).1, (table.declareStruct layout).2)
  | .entry => .ok (some table.declareEntry.1, table.declareEntry.2)
  | .binding id b => (table.declareVariable id b).map fun table' => (none, table')

/-- Make a declaration in a tree of scopes. -/
def ScopeTree.declare (tree : ScopeTree) :
    Declaration → Except Fault (Option ScopeId × ScopeTree)
  | .function signature => (tree.declareFunction signature).map fun (id, tree') => (some id, tree')
  | .struct layout => (tree.declareStruct layout).map fun (id, tree') => (some id, tree')
  | .entry => tree.declareEntry.map fun (id, tree') => (some id, tree')
  | .binding id b => (tree.declareVariable id b).map fun tree' => (none, tree')

/-- Make declarations in order; the ids of the scopes that they create. -/
def ScopeTree.declareAll (tree : ScopeTree) :
    List Declaration → Except Fault (List ScopeId × ScopeTree)
  | [] => .ok ([], tree)
  | d :: rest =>
    match tree.declare d with
    | .error fault => .error fault
    | .ok (id, tree') => (tree'.declareAll rest).map fun (ids, last) => (id.toList ++ ids, last)

-- ============================================================================
-- What declarations say
-- ============================================================================

/-- The kinds and names of the scopes, the root first. -/
def scopeHeads (ds : List Declaration) : List (ScopeKind × Option String) :=
  (.root, none) :: ds.filterMap Declaration.head?

/-- The variables that declarations bind, each with the number of its scope, where `count`
    is the number of scopes before. -/
def bindingsFrom (count : Nat) : List Declaration → List (Nat × Binding)
  | [] => []
  | d :: rest => d.bindings count ++ bindingsFrom (count + d.head?.toList.length) rest

/-- The variables that are declared in the scope at a place, in order. -/
def boundIn (ds : List Declaration) (place : Nat) : List Binding :=
  ((bindingsFrom 1 ds).filter fun (scope, _) => scope = place).map Prod.snd

/-- Variables are declared in scopes that exist by then, where `count` is the number of
    scopes before. -/
def InExistingScopes (count : Nat) : List Declaration → Prop
  | [] => True
  | d :: rest => (∀ id b, d = .binding id b → id.number.toNat < count) ∧
      InExistingScopes (count + d.head?.toList.length) rest

/-- The last element of a list that has a name. -/
def lastNamed {α : Type} (nameOf : α → String) (xs : List α) (name : String) : Option α :=
  xs.reverse.find? fun x => nameOf x == name

/-- The type in the last binding of a name. -/
def lastType (bindings : List Binding) (name : String) : Option Ty :=
  (lastNamed Binding.name bindings name).map Binding.ty

section Appended

variable (ds : List Declaration) (d : Declaration)

theorem scopeHeads_append : scopeHeads (ds ++ [d]) = scopeHeads ds ++ d.head?.toList := by
  cases hd : d.head? <;> simp [scopeHeads, hd]

theorem bindingsFrom_append (count : Nat) (ds es : List Declaration) :
    bindingsFrom count (ds ++ es) =
      bindingsFrom count ds ++ bindingsFrom (count + (ds.filterMap Declaration.head?).length) es := by
  induction ds generalizing count with
  | nil => simp [bindingsFrom]
  | cons d rest ih =>
      have hcount : count + d.head?.toList.length + (rest.filterMap Declaration.head?).length =
          count + ((d :: rest).filterMap Declaration.head?).length := by
        cases hd : d.head? <;> simp [hd]; omega
      rw [List.cons_append, bindingsFrom, ih, bindingsFrom, hcount, List.append_assoc]

theorem boundIn_append (place : Nat) :
    boundIn (ds ++ [d]) place = boundIn ds place ++
      ((d.bindings (scopeHeads ds).length).filter fun (scope, _) => scope = place).map Prod.snd := by
  have hcount : 1 + (ds.filterMap Declaration.head?).length = (scopeHeads ds).length := by
    rw [scopeHeads, List.length_cons]
    omega
  rw [boundIn, boundIn, bindingsFrom_append, hcount, List.filter_append, List.map_append,
    bindingsFrom, bindingsFrom, List.append_nil]

end Appended

-- ============================================================================
-- Tables
-- ============================================================================

namespace SymbolTable

/-- The table is what is left by the declarations. -/
structure BuiltBy (table : SymbolTable) (ds : List Declaration) : Prop where
  length : table.scopeList.length = (scopeHeads ds).length
  scopes : ∀ place head, (scopeHeads ds)[place]? = some head →
    table.scopeList[place]? = some (Scope.mk head.1 head.2 (boundIn ds place).reverse)
  unbound : ∀ place, (scopeHeads ds).length ≤ place → boundIn ds place = []
  functions : table.functions = (ds.filterMap Declaration.function?).reverse
  structs : table.structs = (ds.filterMap Declaration.struct?).reverse

theorem builtBy_empty : empty.BuiltBy [] := by
  refine ⟨rfl, ?_, fun _ _ => rfl, rfl, rfl⟩
  intro place head hhead
  cases place with
  | zero =>
      obtain rfl := Option.some.inj hhead
      rfl
  | succ place => simp [scopeHeads] at hhead

section Step

variable {table table' : SymbolTable} {ds : List Declaration} {d : Declaration}

theorem BuiltBy.toNat_lt {id : ScopeId} (h : table.BuiltBy ds)
    (hid : id.number.toNat < (scopeHeads ds).length) : Index.toNat id < table.scopes.size := by
  rw [← h.length, scopeList, Array.length_toList] at hid
  exact hid

/-- A created scope holds the variables of its declaration. -/
theorem BuiltBy.created {head : ScopeKind × Option String} (own : List Binding)
    (h : table.BuiltBy ds) (hhead : d.head? = some head)
    (hown : d.bindings (scopeHeads ds).length = own.map fun b => ((scopeHeads ds).length, b))
    (hscopes : table'.scopeList = table.scopeList ++ [⟨head.1, head.2, own.reverse⟩])
    (hfunctions : table'.functions = d.function?.toList ++ table.functions)
    (hstructs : table'.structs = d.struct?.toList ++ table.structs) :
    table'.BuiltBy (ds ++ [d]) := by
  have hbound : ∀ place, boundIn (ds ++ [d]) place =
      boundIn ds place ++ if (scopeHeads ds).length = place then own else [] := by
    intro place
    rw [boundIn_append, hown]
    by_cases hplace : (scopeHeads ds).length = place
    · rw [if_pos hplace, List.filter_eq_self.mpr (by simp [hplace]), List.map_map]
      exact congrArg _ (List.map_id own)
    · rw [if_neg hplace, List.filter_eq_nil_iff.mpr (by simp [hplace]), List.map_nil]
  have hheads : scopeHeads (ds ++ [d]) = scopeHeads ds ++ [head] := by
    rw [scopeHeads_append, hhead, Option.toList_some]
  refine ⟨?_, ?_, ?_, ?_, ?_⟩
  · simp [hscopes, hheads, h.length]
  · intro place found hfound
    rw [hheads] at hfound
    rw [hscopes, hbound]
    by_cases hlt : place < (scopeHeads ds).length
    · rw [List.getElem?_append_left hlt] at hfound
      rw [List.getElem?_append_left (h.length ▸ hlt), if_neg (Nat.ne_of_gt hlt), List.append_nil]
      exact h.scopes place found hfound
    · have hplace : place = (scopeHeads ds).length := by
        have := (List.getElem?_eq_some_iff.mp hfound).1
        rw [List.length_append, List.length_singleton] at this
        omega
      subst hplace
      rw [List.getElem?_concat_length] at hfound
      obtain rfl := Option.some.inj hfound
      rw [← h.length, List.getElem?_concat_length, h.length, if_pos rfl,
        h.unbound _ (Nat.le_refl _), List.nil_append]
  · intro place hplace
    rw [hheads, List.length_append, List.length_singleton] at hplace
    rw [hbound, h.unbound place (by omega), if_neg (by omega), List.append_nil]
  · rw [hfunctions, h.functions]
    cases hd : d.function? <;> simp [hd]
  · rw [hstructs, h.structs]
    cases hd : d.struct? <;> simp [hd]

/-- A variable is put in front of those of its scope. -/
theorem BuiltBy.bound {id : ScopeId} {b : Binding} (h : table.BuiltBy ds)
    (hid : id.number.toNat < (scopeHeads ds).length)
    (hdeclare : table.declareVariable id b = .ok table') :
    table'.BuiltBy (ds ++ [.binding id b]) := by
  rw [declareVariable, Indexed.modify, if_pos (h.toNat_lt hid)] at hdeclare
  cases hdeclare
  have hheads : scopeHeads (ds ++ [.binding id b]) = scopeHeads ds := by
    simp [scopeHeads, Declaration.head?]
  have hbound : ∀ place, boundIn (ds ++ [.binding id b]) place =
      boundIn ds place ++ if id.number.toNat = place then [b] else [] := by
    intro place
    rw [boundIn_append, Declaration.bindings]
    by_cases hplace : id.number.toNat = place <;> simp [hplace]
  refine ⟨?_, ?_, ?_, ?_, ?_⟩
  · rw [hheads, ← h.length]
    simp [scopeList]
  · intro place head hhead
    rw [hheads] at hhead
    have hscope := h.scopes place head hhead
    rw [scopeList, Array.getElem?_toList] at hscope
    rw [hbound, scopeList, Array.getElem?_toList, Array.getElem?_modify]
    change (if id.number.toNat = place then _ else _) = _
    split
    · rw [hscope, Option.map_some, Scope.declare, List.reverse_append]
      rfl
    · rw [hscope, List.append_nil]
  · intro place hplace
    rw [hheads] at hplace
    rw [hbound, h.unbound place hplace, if_neg (by omega), List.append_nil]
  · simpa [List.filterMap_cons, Declaration.function?] using h.functions
  · simpa [List.filterMap_cons, Declaration.struct?] using h.structs

/-- One more declaration in an existing scope succeeds, and is recorded. A scope that it
    creates gets the next number. -/
theorem BuiltBy.step (h : table.BuiltBy ds)
    (hd : ∀ id b, d = .binding id b → id.number.toNat < (scopeHeads ds).length) :
    ∃ table', table.declare d =
        .ok (d.head?.map fun _ => Index.ofNat (scopeHeads ds).length, table') ∧
      table'.BuiltBy (ds ++ [d]) := by
  have hnext : (table.scopes.next : ScopeId) = Index.ofNat (scopeHeads ds).length := by
    rw [← h.length, Indexed.next, scopeList, Array.length_toList]
    rfl
  cases d with
  | function signature =>
      refine ⟨_, by rw [declare, ← hnext]; rfl, ?_⟩
      exact h.created _ rfl rfl Array.toList_push rfl rfl
  | struct layout =>
      refine ⟨_, by rw [declare, ← hnext]; rfl, ?_⟩
      exact h.created _ rfl rfl Array.toList_push rfl rfl
  | entry =>
      refine ⟨_, by rw [declare, ← hnext]; rfl, ?_⟩
      exact h.created [] rfl rfl Array.toList_push rfl rfl
  | binding id b =>
      have hid := hd id b rfl
      obtain ⟨table', htable'⟩ : ∃ table', table.declareVariable id b = .ok table' := by
        rw [declareVariable, Indexed.modify, if_pos (h.toNat_lt hid)]
        exact ⟨_, rfl⟩
      exact ⟨table', by rw [declare, htable']; rfl, h.bound hid htable'⟩

end Step

-- ============================================================================
-- Answers
-- ============================================================================

section Answers

variable {table : SymbolTable} {ds : List Declaration}

theorem BuiltBy.scope_eq (h : table.BuiltBy ds) (id : ScopeId) :
    table.scope id = match (scopeHeads ds)[id.number.toNat]? with
      | some head => .ok ⟨head.1, head.2, (boundIn ds id.number.toNat).reverse⟩
      | none => .error .indexOutOfRange := by
  cases hhead : (scopeHeads ds)[id.number.toNat]? with
  | some head => exact table.scope_eq id (h.scopes _ _ hhead)
  | none =>
      have hnone : table.scopes.get? id = none := by
        have hlength : table.scopeList.length ≤ id.number.toNat :=
          h.length ▸ List.getElem?_eq_none_iff.mp hhead
        rw [scopeList, Array.length_toList] at hlength
        exact Array.getElem?_eq_none hlength
      rw [scope, Indexed.get, hnone]

/-- A scope that can be read is one of the declared ones, with the variables declared in
    it. -/
theorem BuiltBy.of_scope (h : table.BuiltBy ds) {id : ScopeId} {s : Scope}
    (hs : table.scope id = .ok s) :
    (scopeHeads ds)[id.number.toNat]? = some (s.kind, s.name) ∧
      s.bindings = (boundIn ds id.number.toNat).reverse := by
  rw [h.scope_eq] at hs
  cases hhead : (scopeHeads ds)[id.number.toNat]? with
  | none =>
      rw [hhead] at hs
      cases hs
  | some head =>
      rw [hhead] at hs
      cases hs
      exact ⟨rfl, rfl⟩

theorem BuiltBy.find?_eq (h : table.BuiltBy ds) {id : ScopeId} {s : Scope}
    (hs : table.scope id = .ok s) (name : String) :
    s.find? name = lastType (boundIn ds id.number.toNat) name := by
  rw [Scope.find?, (h.of_scope hs).2]
  rfl

theorem eq_root_iff (id : ScopeId) : id = root ↔ id.number.toNat = 0 := by
  constructor
  · rintro rfl
    rfl
  · intro hzero
    exact congrArg ScopeId.mk (UInt32.toNat_inj.mp hzero)

theorem BuiltBy.root_iff (h : table.BuiltBy ds) {id : ScopeId} {s : Scope}
    (hs : table.scope id = .ok s) : s.kind = .root ↔ id = root := by
  have hhead := (h.of_scope hs).1
  rw [eq_root_iff]
  cases hplace : id.number.toNat with
  | zero =>
      rw [hplace] at hhead
      have hkind : ScopeKind.root = s.kind := congrArg Prod.fst (Option.some.inj hhead)
      simp [hkind]
  | succ place =>
      rw [hplace, scopeHeads, List.getElem?_cons_succ] at hhead
      obtain ⟨d, -, hd⟩ := List.mem_filterMap.mp (List.mem_of_getElem? hhead)
      simpa using Declaration.head?_ne_root hd

theorem BuiltBy.parent?_eq (h : table.BuiltBy ds) {id : ScopeId} {s : Scope}
    (hs : table.scope id = .ok s) : parent? s = if id = root then none else some root := by
  have hroot := h.root_iff hs
  rw [parent?]
  split
  · next hkind => rw [if_pos (hroot.mp hkind)]
  · next hkind => rw [if_neg (mt hroot.mpr hkind)]

theorem BuiltBy.lookupVariable_eq (h : table.BuiltBy ds) {id : ScopeId} {s : Scope}
    (hs : table.scope id = .ok s) (name : String) : table.lookupVariable id name =
      .ok ((lastType (boundIn ds id.number.toNat) name).or (lastType (boundIn ds 0) name)) := by
  have hroot : table.scope root = .ok ⟨.root, none, (boundIn ds 0).reverse⟩ := h.scope_eq root
  rw [lookupVariable, hs]
  simp only [h.find?_eq hs, h.parent?_eq hs]
  cases hown : lastType (boundIn ds id.number.toNat) name with
  | some ty => rfl
  | none =>
      by_cases hid : id = root
      · subst hid
        have hzero : lastType (boundIn ds 0) name = none := hown
        simp [hzero]
      · rw [if_neg hid]
        simp only [hroot, Option.none_or]
        rfl

theorem BuiltBy.map_scopeList (h : table.BuiltBy ds) :
    table.scopeList.map (fun s => (s.kind, s.name)) = scopeHeads ds := by
  refine List.ext_getElem? fun place => ?_
  rw [List.getElem?_map]
  cases hhead : (scopeHeads ds)[place]? with
  | some head => rw [h.scopes place head hhead, Option.map_some]
  | none =>
      rw [List.getElem?_eq_none_iff, ← h.length] at hhead
      rw [List.getElem?_eq_none hhead, Option.map_none]

/-- The scope of a kind and name is the latest, and there is one if one was created. -/
theorem BuiltBy.childScope?_cases (h : table.BuiltBy ds) (kind : ScopeKind) (name : String) :
    (table.childScope? kind name = none ∧ (kind, some name) ∉ scopeHeads ds) ∨
    ∃ place, table.childScope? kind name = some (Index.ofNat place) ∧
      (scopeHeads ds)[place]? = some (kind, some name) ∧
      ∀ later, place < later → (scopeHeads ds)[later]? ≠ some (kind, some name) := by
  rw [← h.map_scopeList]
  rcases table.childScope?_cases kind name with
    ⟨hnone, hall⟩ | ⟨before, s, after, heq, ⟨hkind, hname⟩, hafter, hsome⟩
  · refine .inl ⟨hnone, fun hmem => ?_⟩
    obtain ⟨s, hs, hhead⟩ := List.mem_map.mp hmem
    exact hall s hs ⟨congrArg Prod.fst hhead, congrArg Prod.snd hhead⟩
  · refine .inr ⟨before.length, hsome, ?_, ?_⟩
    · rw [List.getElem?_map, heq, List.getElem?_append_right (Nat.le_refl _), Nat.sub_self,
        List.getElem?_cons_zero, Option.map_some, hkind, hname]
    · intro later hlater hfound
      obtain ⟨more, rfl⟩ := Nat.exists_eq_add_of_lt hlater
      rw [List.getElem?_map, heq, List.getElem?_append_right (by omega)] at hfound
      have hplace : before.length + more + 1 - before.length = more + 1 := by omega
      rw [hplace, List.getElem?_cons_succ] at hfound
      obtain ⟨s', hs', hhead⟩ := Option.map_eq_some_iff.mp hfound
      exact hafter s' (List.mem_of_getElem? hs')
        ⟨congrArg Prod.fst hhead, congrArg Prod.snd hhead⟩

end Answers

/-- A scope that is added leaves all others as they are. -/
theorem scope_of_push {table table' : SymbolTable} {added s : Scope} {id : ScopeId}
    (h : table'.scopes = table.scopes.push added) (hs : table.scope id = .ok s) :
    table'.scope id = .ok s := by
  cases hget : table.scopes.items[id.number.toNat]? with
  | none =>
      have hnone : table.scopes.get? id = none := hget
      rw [scope, Indexed.get, hnone] at hs
      cases hs
  | some found =>
      have hsome : table.scopes.get? id = some found := hget
      rw [scope, Indexed.get, hsome] at hs
      obtain rfl := Except.ok.inj hs
      have hkept : table'.scopes.get? id = some found := by
        obtain ⟨hlt, -⟩ := Array.getElem?_eq_some_iff.mp hget
        rw [h]
        exact (Array.getElem?_push_lt hlt).trans ((Array.getElem?_eq_getElem hlt).symm.trans hget)
      rw [scope, Indexed.get, hkept]

theorem scope_of_declare {table table' : SymbolTable} {d : Declaration} {created id : ScopeId}
    {s : Scope} (hd : table.declare d = .ok (some created, table'))
    (hs : table.scope id = .ok s) : table'.scope id = .ok s := by
  cases d with
  | function signature | struct layout | entry =>
      cases hd
      exact scope_of_push rfl hs
  | binding other b =>
      rw [declare] at hd
      cases hv : table.declareVariable other b <;> rw [hv] at hd <;> cases hd

end SymbolTable

-- ============================================================================
-- Trees
-- ============================================================================

/-- The ids of the scopes that declarations create, where `count` is the number of scopes
    before. -/
def createdIds (count : Nat) (ds : List Declaration) : List ScopeId :=
  (List.range' count (ds.filterMap Declaration.head?).length).map Index.ofNat

namespace ScopeTree

/-- What a tree answers is what the declarations say. -/
structure Answers (tree : ScopeTree) (ds : List Declaration) : Prop where
  count : tree.scopes.size = (scopeHeads ds).length
  /-- The scope at a place has its place as its id. -/
  scope_place : ∀ (place : Nat) head, (scopeHeads ds)[place]? = some head →
    ∃ s, tree.scopes.items[place]? = some s ∧ tree.scope (Index.ofNat place) = .ok s ∧
      s.id = Index.ofNat place ∧ s.id.number.toNat = place ∧ s.kind = head.1 ∧ s.name = head.2
  scope_none : ∀ id : ScopeId, (scopeHeads ds)[id.number.toNat]? = none →
    tree.scope id = .error .indexOutOfRange
  id_eq : ∀ id s, tree.scope id = .ok s → s.id = id
  /-- Only the root is a root, and the root is around all others. -/
  root_iff : ∀ id s, tree.scope id = .ok s → (s.kind = .root ↔ id = SymbolTable.root)
  parent_eq : ∀ id s, tree.scope id = .ok s →
    s.parent = if id = SymbolTable.root then none else some SymbolTable.root
  /-- The latest scope of a kind and name is found, and has that kind and name. -/
  child_some : ∀ kind name id, tree.childScope? kind name = .ok (some id) →
    (∃ place : Nat, id = Index.ofNat place ∧ (scopeHeads ds)[place]? = some (kind, some name) ∧
      ∀ later, place < later → (scopeHeads ds)[later]? ≠ some (kind, some name)) ∧
    ∃ s, tree.scope id = .ok s ∧ s.kind = kind ∧ s.name = some name
  child_none : ∀ kind name, (∃ found, tree.childScope? kind name = .ok found) ∧
    (tree.childScope? kind name = .ok none ↔ (kind, some name) ∉ scopeHeads ds)
  /-- All ways up end, and functions and structs are the same from everywhere. -/
  function_eq : ∀ id s name, tree.scope id = .ok s → tree.lookupFunction id name =
    some (.ok (lastNamed Signature.name (ds.filterMap Declaration.function?) name))
  struct_eq : ∀ id s name, tree.scope id = .ok s → tree.lookupStruct id name =
    some (.ok (lastNamed Layout.name (ds.filterMap Declaration.struct?) name))
  /-- A variable of the scope itself comes before one of the root. -/
  variable_eq : ∀ id s name, tree.scope id = .ok s → tree.lookupVariable id name =
    some (.ok ((lastType (boundIn ds id.number.toNat) name).or (lastType (boundIn ds 0) name)))

/-- A well-formed tree whose view is what is left by the declarations. -/
structure Records (tree : ScopeTree) (ds : List Declaration) : Prop where
  wellFormed : tree.WellFormed
  builtBy : tree.view.BuiltBy ds

theorem records_new : new.Records [] := ⟨wellFormed_new, view_new ▸ SymbolTable.builtBy_empty⟩

section

variable {tree : ScopeTree} {ds : List Declaration} {d : Declaration}

/-- A tree goes along with its view. -/
theorem WellFormed.declare {created : Option ScopeId} {table : SymbolTable} (h : tree.WellFormed)
    (hsize : tree.scopes.size < UInt32.size) (hview : tree.view.declare d = .ok (created, table)) :
    ∃ tree', tree.declare d = .ok (created, tree') ∧ tree'.WellFormed ∧ tree'.view = table := by
  cases d with
  | function signature =>
      cases hview
      obtain ⟨tree', hdeclare, hwell, -, hview⟩ := view_declareFunction h hsize signature
      exact ⟨tree', by rw [ScopeTree.declare, hdeclare]; rfl, hwell, hview⟩
  | struct layout =>
      cases hview
      obtain ⟨tree', hdeclare, hwell, -, hview⟩ := view_declareStruct h hsize layout
      exact ⟨tree', by rw [ScopeTree.declare, hdeclare]; rfl, hwell, hview⟩
  | entry =>
      cases hview
      obtain ⟨tree', hdeclare, hwell, -, hview⟩ := view_declareEntry h hsize
      exact ⟨tree', by rw [ScopeTree.declare, hdeclare]; rfl, hwell, hview⟩
  | binding id b =>
      rw [SymbolTable.declare, ← view_declareVariable] at hview
      cases hdeclare : tree.declareVariable id b with
      | error fault =>
          rw [hdeclare] at hview
          cases hview
      | ok tree' =>
          rw [hdeclare] at hview
          cases hview
          exact ⟨tree', by rw [ScopeTree.declare, hdeclare]; rfl,
            (h.declareVariable hdeclare).1, rfl⟩

theorem Records.size_eq (h : tree.Records ds) : tree.scopes.size = (scopeHeads ds).length := by
  rw [← h.builtBy.length, ← view_size, SymbolTable.scopeList, Array.length_toList]
  rfl

/-- One more declaration in an existing scope succeeds, and is recorded. A scope that it
    creates gets the next number. -/
theorem Records.step (h : tree.Records ds) (hcount : (scopeHeads ds).length < UInt32.size)
    (hd : ∀ id b, d = .binding id b → id.number.toNat < (scopeHeads ds).length) :
    ∃ tree', tree.declare d =
        .ok (d.head?.map fun _ => Index.ofNat (scopeHeads ds).length, tree') ∧
      tree'.Records (ds ++ [d]) := by
  obtain ⟨table, hview, hbuilt⟩ := h.builtBy.step hd
  obtain ⟨tree', hdeclare, hwell, rfl⟩ := h.wellFormed.declare (h.size_eq ▸ hcount) hview
  exact ⟨tree', hdeclare, hwell, hbuilt⟩

/-- Declarations in existing scopes succeed, and the tree records them all. -/
theorem records_of_declareAll (more : List Declaration) (h : tree.Records ds)
    (hmore : InExistingScopes (scopeHeads ds).length more)
    (hcount : (scopeHeads (ds ++ more)).length < UInt32.size) :
    ∃ tree', tree.declareAll more = .ok (createdIds (scopeHeads ds).length more, tree') ∧
      tree'.Records (ds ++ more) := by
  induction more generalizing tree ds with
  | nil => exact ⟨tree, rfl, by rwa [List.append_nil]⟩
  | cons d rest ih =>
      obtain ⟨hd, hrest⟩ := hmore
      have hlength : (scopeHeads (ds ++ [d])).length =
          (scopeHeads ds).length + d.head?.toList.length := by
        rw [scopeHeads_append, List.length_append]
      have hfewer : (scopeHeads ds).length ≤ (scopeHeads (ds ++ d :: rest)).length := by
        simp [scopeHeads]
      obtain ⟨tree₁, hdeclare, h₁⟩ := h.step (Nat.lt_of_le_of_lt hfewer hcount) hd
      obtain ⟨tree', hall, h'⟩ := ih h₁ (hlength ▸ hrest) (by rwa [List.append_assoc])
      refine ⟨tree', ?_, by rwa [List.append_assoc] at h'⟩
      rw [declareAll, hdeclare]
      change Except.map _ (tree₁.declareAll rest) = _
      rw [hall, hlength]
      cases hhead : d.head? <;> simp [Except.map, createdIds, hhead, List.range'_succ]

/-- A scope of the tree is one of its view. -/
theorem view_scope_ok {id : ScopeId} {s : ScopeRecord} (hs : tree.scope id = .ok s) :
    tree.view.scope id = .ok s.view := by
  rw [view_scope, hs]
  rfl

/-- The scope that was created as number `place` stands there, and has this number. -/
theorem Records.scope_place (h : tree.Records ds) (hcount : (scopeHeads ds).length ≤ UInt32.size)
    {place : Nat} {head : ScopeKind × Option String} (hhead : (scopeHeads ds)[place]? = some head) :
    ∃ s, tree.scopes.items[place]? = some s ∧ tree.scope (Index.ofNat place) = .ok s ∧
      s.id = Index.ofNat place ∧ s.id.number.toNat = place ∧ s.kind = head.1 ∧ s.name = head.2 := by
  have hlt := (List.getElem?_eq_some_iff.mp hhead).1
  have hplace : (Index.ofNat place : ScopeId).number.toNat = place :=
    Nat.mod_eq_of_lt (Nat.lt_of_lt_of_le hlt hcount)
  obtain ⟨s, hs⟩ : ∃ s, tree.scopes.items[place]? = some s := by
    rw [← h.size_eq] at hlt
    exact ⟨_, Array.getElem?_eq_getElem hlt⟩
  have hscope : tree.scope (Index.ofNat place) = .ok s := by
    rw [scope_eq_ok, hplace]
    exact hs
  have hid := (h.wellFormed.stands place s hs).id_eq
  have hfound := (h.builtBy.of_scope (view_scope_ok hscope)).1
  rw [hplace, hhead] at hfound
  have hsame := Option.some.inj hfound
  exact ⟨s, hs, hscope, hid, by rw [hid, hplace], (congrArg Prod.fst hsame).symm,
    (congrArg Prod.snd hsame).symm⟩

/-- What is found below the root is the latest scope of its kind and name. -/
theorem Records.child_some (h : tree.Records ds) (hcount : (scopeHeads ds).length ≤ UInt32.size)
    {kind : ScopeKind} {name : String} {id : ScopeId}
    (hid : tree.childScope? kind name = .ok (some id)) :
    (∃ place : Nat, id = Index.ofNat place ∧ (scopeHeads ds)[place]? = some (kind, some name) ∧
      ∀ later, place < later → (scopeHeads ds)[later]? ≠ some (kind, some name)) ∧
    ∃ s, tree.scope id = .ok s ∧ s.kind = kind ∧ s.name = some name := by
  rw [h.wellFormed.childScope?_eq] at hid
  have hfound := Except.ok.inj hid
  rcases h.builtBy.childScope?_cases kind name with ⟨hnone, -⟩ | ⟨place, hsome, hplace, hlater⟩
  · cases hnone.symm.trans hfound
  · refine ⟨⟨place, Option.some.inj (hfound.symm.trans hsome), hplace, hlater⟩, ?_⟩
    have hsize : tree.view.scopeList.length ≤ UInt32.size := h.builtBy.length ▸ hcount
    obtain ⟨_, -, ⟨hkind, hname⟩, hscope⟩ := SymbolTable.matches_of_childScope? hfound hsize
    rw [view_scope] at hscope
    cases hs : tree.scope id with
    | error fault =>
        rw [hs] at hscope
        cases hscope
    | ok s =>
        rw [hs] at hscope
        cases hscope
        exact ⟨s, rfl, hkind, hname⟩

/-- A tree that records declarations answers what they say. -/
theorem Records.answers (h : tree.Records ds) (hcount : (scopeHeads ds).length ≤ UInt32.size) :
    tree.Answers ds where
  count := h.size_eq
  scope_place _ _ hhead := h.scope_place hcount hhead
  scope_none := by
    intro id hid
    refine scope_eq_error (Array.getElem?_eq_none ?_)
    rw [List.getElem?_eq_none_iff, ← h.size_eq] at hid
    exact hid
  id_eq := by
    intro id s hs
    rw [(h.wellFormed.stands _ s (scope_eq_ok.mp hs)).id_eq]
    exact congrArg ScopeId.mk UInt32.ofNat_toNat
  root_iff := fun _ _ hs => h.builtBy.root_iff (view_scope_ok hs)
  parent_eq := by
    intro id s hs
    rw [← h.wellFormed.parent?_view hs]
    exact h.builtBy.parent?_eq (view_scope_ok hs)
  child_some _ _ _ hid := h.child_some hcount hid
  child_none := by
    intro kind name
    rw [h.wellFormed.childScope?_eq]
    refine ⟨⟨_, rfl⟩, ?_⟩
    rcases h.builtBy.childScope?_cases kind name with ⟨hnone, habsent⟩ | ⟨place, hsome, hplace, -⟩
    · exact iff_of_true (congrArg Except.ok hnone) habsent
    · refine iff_of_false (by simp [hsome]) ?_
      exact not_not_intro (List.mem_of_getElem? hplace)
  function_eq := by
    intro id s name hs
    rw [h.wellFormed.lookupFunction_eq, SymbolTable.lookupFunction, view_scope_ok hs,
      SymbolTable.function?, h.builtBy.functions]
    rfl
  struct_eq := by
    intro id s name hs
    rw [h.wellFormed.lookupStruct_eq, SymbolTable.lookupStruct, view_scope_ok hs,
      SymbolTable.struct?, h.builtBy.structs]
    rfl
  variable_eq := by
    intro id s name hs
    rw [h.wellFormed.lookupVariable_eq, h.builtBy.lookupVariable_eq (view_scope_ok hs)]

/-- Scopes at one place of two trees are the same, but for what the root knows, if they look
    the same. -/
theorem eq_of_view_eq {s s' : ScopeRecord} {place : Nat} (hs : s.StandsAt place)
    (hs' : s'.StandsAt place) (hview : s'.view = s.view) :
    s'.variableTypes = s.variableTypes ∧ (place ≠ 0 → s' = s) := by
  have hvariables : s'.variableTypes = s.variableTypes := by
    have hbindings := congrArg Scope.bindings hview
    refine List.map_injective_iff.mpr ?_ hbindings
    rintro ⟨name, ty⟩ ⟨name', ty'⟩ h
    cases h
    rfl
  refine ⟨hvariables, fun hplace => ?_⟩
  have hempty : ∀ {β : Type} {entries : List β} {P : β → Prop},
      (∀ entry ∈ entries, place = 0 ∧ P entry) → entries = [] := by
    intro β entries P h
    exact List.eq_nil_iff_forall_not_mem.mpr fun entry hentry => hplace (h entry hentry).1
  have hchildren : ∀ {t : ScopeRecord}, t.StandsAt place → t.children = [] := fun ht =>
    hempty (P := fun _ => True) fun entry hentry => ⟨ht.children entry hentry, trivial⟩
  obtain ⟨id, kind, name, parent, children, functions, structs, vars⟩ := s
  obtain ⟨id', kind', name', parent', children', functions', structs', vars'⟩ := s'
  obtain rfl : id' = id := hs'.id_eq.trans hs.id_eq.symm
  obtain rfl : kind' = kind := congrArg Scope.kind hview
  obtain rfl : name' = name := congrArg Scope.name hview
  obtain rfl : parent' = parent := hs'.parent_eq.trans hs.parent_eq.symm
  obtain rfl : children' = children := (hchildren hs').trans (hchildren hs).symm
  obtain rfl : functions' = functions := (hempty hs'.functions).trans (hempty hs.functions).symm
  obtain rfl : structs' = structs := (hempty hs'.structs).trans (hempty hs.structs).symm
  obtain rfl : vars' = vars := hvariables
  rfl

/-- A declaration that creates a scope keeps the variables of all others, and everything of
    those below the root. -/
theorem Records.scope_kept (h : tree.Records ds) (hcount : (scopeHeads ds).length < UInt32.size)
    {created : ScopeId} {tree' : ScopeTree} (hdeclare : tree.declare d = .ok (some created, tree'))
    {id : ScopeId} {s : ScopeRecord} (hs : tree.scope id = .ok s) :
    ∃ s', tree'.scope id = .ok s' ∧ s'.variableTypes = s.variableTypes ∧
      (id ≠ SymbolTable.root → s' = s) := by
  have hd : ∀ id b, d = .binding id b → id.number.toNat < (scopeHeads ds).length := by
    rintro id b rfl
    rw [declare] at hdeclare
    cases hv : tree.declareVariable id b <;> rw [hv] at hdeclare <;> cases hdeclare
  obtain ⟨table, hview, -⟩ := h.builtBy.step hd
  obtain ⟨tree₁, hdeclare₁, hwell, rfl⟩ := h.wellFormed.declare (h.size_eq ▸ hcount) hview
  rw [hdeclare] at hdeclare₁
  obtain ⟨hcreated, rfl⟩ := Prod.mk.inj (Except.ok.inj hdeclare₁)
  rw [← hcreated] at hview
  have hkept := SymbolTable.scope_of_declare hview (view_scope_ok hs)
  rw [view_scope] at hkept
  cases hs' : tree'.scope id with
  | error fault =>
      rw [hs'] at hkept
      cases hkept
  | ok s' =>
      rw [hs'] at hkept
      have hstands := h.wellFormed.stands _ s (scope_eq_ok.mp hs)
      have hstands' := hwell.stands _ s' (scope_eq_ok.mp hs')
      obtain ⟨hvariables, hall⟩ := eq_of_view_eq hstands hstands' (Except.ok.inj hkept)
      exact ⟨s', rfl, hvariables, fun hid => hall (mt (SymbolTable.eq_root_iff id).mpr hid)⟩

end

end ScopeTree

/-- Declarations in any order, and in scopes that exist, give a tree of scopes that answers
    what they say. A further declaration that creates a scope changes the variables of no
    other scope, and nothing of a scope below the root. -/
theorem declarations_recorded (ds : List Declaration) (hexisting : InExistingScopes 1 ds)
    (hcount : (scopeHeads ds).length < UInt32.size) :
    ∃ tree, ScopeTree.new.declareAll ds = .ok (createdIds 1 ds, tree) ∧ tree.Answers ds ∧
      ∀ d created tree', tree.declare d = .ok (some created, tree') →
        ∀ id s, tree.scope id = .ok s → ∃ s', tree'.scope id = .ok s' ∧
          s'.variableTypes = s.variableTypes ∧ (id ≠ SymbolTable.root → s' = s) := by
  obtain ⟨tree, hall, hrecords⟩ := ScopeTree.records_of_declareAll ds ScopeTree.records_new
    hexisting hcount
  exact ⟨tree, hall, hrecords.answers (Nat.le_of_lt hcount),
    fun _ _ _ hdeclare _ _ hs => hrecords.scope_kept hcount hdeclare hs⟩

/-- A function is declared twice, with a variable in the root and one in each of its
    scopes in between. -/
def redeclared : List Declaration :=
  [.function ⟨"f", [⟨"x", .int⟩], .int⟩, .binding ⟨0⟩ ⟨"x", .bool⟩, .struct ⟨"f", []⟩,
    .binding ⟨1⟩ ⟨"y", .int⟩, .function ⟨"f", [⟨"y", .bool⟩], .void⟩, .binding ⟨3⟩ ⟨"y", .int⟩,
    .entry]

theorem declarations_recorded_redeclared :
    InExistingScopes 1 redeclared ∧ (scopeHeads redeclared).length < UInt32.size ∧
      ∃ tree, ScopeTree.new.declareAll redeclared = .ok ([⟨1⟩, ⟨2⟩, ⟨3⟩, ⟨4⟩], tree) ∧
        tree.Answers redeclared ∧
        tree.lookupFunction ⟨2⟩ "f" = some (.ok (some ⟨"f", [⟨"y", .bool⟩], .void⟩)) ∧
        tree.lookupVariable ⟨3⟩ "y" = some (.ok (some .int)) ∧
        tree.lookupVariable ⟨3⟩ "x" = some (.ok (some .bool)) := by
  have hexisting : InExistingScopes 1 redeclared := by
    simp [redeclared, InExistingScopes, Declaration.head?]
  have hcount : (scopeHeads redeclared).length < UInt32.size := by decide
  obtain ⟨tree, hall, hanswers, -⟩ := declarations_recorded redeclared hexisting hcount
  obtain ⟨s₂, -, hs₂, -⟩ := hanswers.scope_place 2 _ rfl
  obtain ⟨s₃, -, hs₃, -⟩ := hanswers.scope_place 3 _ rfl
  exact ⟨hexisting, hcount, tree, hall, hanswers, hanswers.function_eq _ _ "f" hs₂,
    hanswers.variable_eq _ _ "y" hs₃, hanswers.variable_eq _ _ "x" hs₃⟩

end JasminGen
