/-
  JasminGen.Proofs.Scopes

  The scopes of a tree stand where a symbol table has them. In a well-formed tree each
  scope has its place as its id and the root around it, the root alone knows functions and
  structs, and the child scopes that are entered in it are the latest of their kind and
  name. Declarations keep a tree well-formed and do to its view what they do to a symbol
  table, so that all ways up through the tree end, and look-ups answer what the table
  answers.

  The bound on the number of scopes is needed: the id of a scope with a greater number is
  that of another scope, and its variables would be declared there.

  Main definition: `ScopeTree.WellFormed`. Main results: `ScopeTree.view_declareFunction`,
  `ScopeTree.view_declareStruct`, `ScopeTree.view_declareEntry`,
  `ScopeTree.view_declareVariable`, `ScopeTree.WellFormed.lookupVariable_eq`,
  `ScopeTree.WellFormed.childScope?_eq`, `ScopeTree.view_ofProgram`.
-/

import JasminGen.Proofs.Symbols
import JasminGen.Symbol.Scopes

namespace JasminGen

-- ============================================================================
-- Latest scopes
-- ============================================================================

namespace SymbolTable

theorem lastMatch_concat (kind : ScopeKind) (name : String) (s : Scope) :
    ∀ (scopes : List Scope) (place : Nat),
      childScope?.lastMatch kind name place (scopes ++ [s]) =
        if s.kind = kind ∧ s.name = some name then some (place + scopes.length)
        else childScope?.lastMatch kind name place scopes
  | [], place => rfl
  | first :: rest, place => by
      rw [List.cons_append, childScope?.lastMatch, lastMatch_concat kind name s rest,
        childScope?.lastMatch]
      by_cases hs : s.kind = kind ∧ s.name = some name
      · rw [if_pos hs, if_pos hs, List.length_cons, Nat.add_right_comm, Nat.add_assoc]
      · rw [if_neg hs, if_neg hs]

/-- Only the kinds and names of the scopes matter. -/
theorem lastMatch_congr (kind : ScopeKind) (name : String) :
    ∀ {scopes scopes' : List Scope} (place : Nat),
      scopes'.map (fun s => (s.kind, s.name)) = scopes.map (fun s => (s.kind, s.name)) →
      childScope?.lastMatch kind name place scopes' = childScope?.lastMatch kind name place scopes
  | [], [], _, _ => rfl
  | [], _ :: _, _, h => by cases h
  | _ :: _, [], _, h => by cases h
  | s :: rest, s' :: rest', place, h => by
      rw [List.map_cons, List.map_cons, List.cons.injEq, Prod.mk.injEq] at h
      obtain ⟨⟨hkind, hname⟩, hrest⟩ := h
      rw [childScope?.lastMatch, childScope?.lastMatch, lastMatch_congr kind name _ hrest, hkind,
        hname]

theorem modify_eq_self (items : Array Scope) (place : Nat) {g : Scope → Scope}
    (hg : ∀ s, g s = s) : items.modify place g = items := by
  obtain rfl : g = id := funext hg
  refine Array.ext_getElem? fun i => ?_
  rw [Array.getElem?_modify]
  split <;> simp

/-- Variables of the scope at a place, declared in order. -/
def bindAt (table : SymbolTable) (place : Nat) (bindings : List Binding) : SymbolTable :=
  ⟨⟨table.scopes.items.modify place fun s => ⟨s.kind, s.name, bindings.reverse ++ s.bindings⟩⟩,
    table.functions, table.structs⟩

theorem bindAt_nil (table : SymbolTable) (place : Nat) : table.bindAt place [] = table := by
  rw [bindAt, modify_eq_self]
  exact fun _ => rfl

theorem bindAt_cons (table : SymbolTable) (place : Nat) (b : Binding) (rest : List Binding) :
    (table.bindAt place [b]).bindAt place rest = table.bindAt place (b :: rest) := by
  have hitems : ∀ i : Nat, ((table.bindAt place [b]).bindAt place rest).scopes.items[i]? =
      (table.bindAt place (b :: rest)).scopes.items[i]? := by
    intro i
    simp only [bindAt, Array.getElem?_modify]
    split <;> simp [Function.comp_def]
  exact congrArg (fun items => SymbolTable.mk ⟨items⟩ table.functions table.structs)
    (Array.ext_getElem? hitems)

/-- Variables of the scope that was added last stand in front of those it was added
    with. -/
theorem bindAt_addScope (table : SymbolTable) (kind : ScopeKind) (name : String)
    (own more : List Binding) (functions : List Signature) (structs : List Layout) :
    bindAt ⟨(table.addScope kind name own).2.scopes, functions, structs⟩ table.scopes.size more =
      ⟨(table.addScope kind name (more.reverse ++ own)).2.scopes, functions, structs⟩ := by
  have hitems : (table.scopes.items.push ⟨kind, some name, own⟩).modify table.scopes.items.size
      (fun s => ⟨s.kind, s.name, more.reverse ++ s.bindings⟩) =
        table.scopes.items.push ⟨kind, some name, more.reverse ++ own⟩ := by
    refine Array.ext_getElem? fun i => ?_
    rw [Array.getElem?_modify, Array.getElem?_push, Array.getElem?_push]
    by_cases hi : table.scopes.items.size = i
    · simp [hi]
    · rw [if_neg hi, if_neg (Ne.symm hi), if_neg (Ne.symm hi)]
  exact congrArg (fun items => SymbolTable.mk ⟨items⟩ functions structs) hitems

end SymbolTable

-- ============================================================================
-- Well-formed trees
-- ============================================================================

/-- A scope is one that can stand at a place. -/
structure ScopeRecord.StandsAt (s : ScopeRecord) (place : Nat) : Prop where
  id_eq : s.id = Index.ofNat place
  parent_eq : s.parent = if place = 0 then none else some SymbolTable.root
  root_iff : s.kind = .root ↔ place = 0
  /-- Only the root has children, functions and structs, and its functions and structs have
      their names as keys. -/
  children : ∀ entry ∈ s.children, place = 0
  functions : ∀ entry ∈ s.functions, place = 0 ∧ entry.1 = entry.2.name
  structs : ∀ entry ∈ s.structs, place = 0 ∧ entry.1 = entry.2.name

namespace ScopeTree

/-- All scopes are where they belong, there is a number for each of them, and the root has
    the latest scope of each kind and name as a child. -/
structure WellFormed (tree : ScopeTree) : Prop where
  bounded : tree.scopes.size ≤ UInt32.size
  root_exists : ∃ s, tree.scopes.items[0]? = some s
  stands : ∀ (place : Nat) s, tree.scopes.items[place]? = some s → s.StandsAt place
  children : ∀ s, tree.scopes.items[0]? = some s →
    ∀ kind name, s.children.lookup (kind, name) = tree.view.childScope? kind name

theorem view_new : new.view = .empty := by
  have hitems : new.scopes.items.map ScopeRecord.view = #[⟨.root, none, []⟩] :=
    List.map_toArray
  rw [view, hitems]
  rfl

theorem wellFormed_new : new.WellFormed where
  bounded := by decide
  root_exists := ⟨_, rfl⟩
  stands place s hs := by
    cases place with
    | zero =>
        have hroot : ScopeRecord.new ⟨0⟩ .root none none = s := Option.some.inj hs
        subst hroot
        exact ⟨rfl, rfl, iff_of_true rfl rfl, List.forall_mem_nil _, List.forall_mem_nil _,
          List.forall_mem_nil _⟩
    | succ place => cases hs
  children s hs kind name := by
    have hroot : ScopeRecord.new ⟨0⟩ .root none none = s := Option.some.inj hs
    have hnone : SymbolTable.childScope? .empty kind name = none := by
      change (SymbolTable.childScope?.lastMatch kind name 0 [⟨.root, none, []⟩]).map _ = none
      simp [SymbolTable.childScope?.lastMatch]
    rw [view_new, hnone, ← hroot]
    rfl

section

variable {tree : ScopeTree} {place : Nat} {f : ScopeRecord → ScopeRecord}

theorem scope_eq_ok {id : ScopeId} {s : ScopeRecord} :
    tree.scope id = .ok s ↔ tree.scopes.items[id.number.toNat]? = some s := by
  have hget : tree.scopes.items[id.number.toNat]? = tree.scopes.get? id := rfl
  rw [scope, Indexed.get, hget]
  cases tree.scopes.get? id <;> simp

theorem scope_eq_error {id : ScopeId} (h : tree.scopes.items[id.number.toNat]? = none) :
    tree.scope id = .error .indexOutOfRange := by
  have hget : tree.scopes.get? id = none := h
  rw [scope, Indexed.get, hget]

/-- The view of a tree has the views of its scopes. -/
theorem view_scope (tree : ScopeTree) (id : ScopeId) :
    tree.view.scope id = (tree.scope id).map ScopeRecord.view := by
  have hview : tree.view.scopes.get? id = (tree.scopes.get? id).map ScopeRecord.view :=
    Array.getElem?_map
  rw [SymbolTable.scope, Indexed.get, hview, scope, Indexed.get]
  cases tree.scopes.get? id <;> rfl

theorem rootEntries_eq {β : Type} (entries : ScopeRecord → List β) {s : ScopeRecord}
    (h : tree.scopes.items[0]? = some s) : view.rootEntries tree entries = entries s := by
  have hget : tree.scopes.get? SymbolTable.root = some s := h
  rw [view.rootEntries, hget]

theorem view_size (tree : ScopeTree) : tree.view.scopes.size = tree.scopes.size :=
  Array.size_map

-- ============================================================================
-- Changes of one scope
-- ============================================================================

/-- The tree with the scope at a place changed. -/
def changed (tree : ScopeTree) (place : Nat) (f : ScopeRecord → ScopeRecord) : ScopeTree :=
  ⟨⟨tree.scopes.items.modify place f⟩⟩

theorem modifyScope_ok {id : ScopeId} (h : id.number.toNat < tree.scopes.size)
    (f : ScopeRecord → ScopeRecord) :
    tree.modifyScope id f = .ok (tree.changed id.number.toNat f) := by
  have hindex : Index.toNat id < tree.scopes.size := h
  rw [modifyScope, Indexed.modify, if_pos hindex]
  rfl

theorem modifyScope_error {id : ScopeId} (h : ¬ id.number.toNat < tree.scopes.size)
    (f : ScopeRecord → ScopeRecord) : tree.modifyScope id f = .error .indexOutOfRange := by
  have hindex : ¬ Index.toNat id < tree.scopes.size := h
  rw [modifyScope, Indexed.modify, if_neg hindex]
  rfl

theorem getElem?_changed (i : Nat) : (tree.changed place f).scopes.items[i]? =
    if place = i then tree.scopes.items[i]?.map f else tree.scopes.items[i]? :=
  Array.getElem?_modify

theorem size_changed : (tree.changed place f).scopes.size = tree.scopes.size :=
  Array.size_modify

theorem scopes_view_changed {g : Scope → Scope} (hview : ∀ s, (f s).view = g s.view) :
    (tree.changed place f).view.scopes.items = tree.view.scopes.items.modify place g := by
  refine Array.ext_getElem? fun i => ?_
  simp only [view, Array.getElem?_map, getElem?_changed, Array.getElem?_modify]
  split <;> simp [Function.comp_def, hview]

/-- A change that keeps functions and structs is a change of the view. -/
theorem view_changed {g : Scope → Scope} (hview : ∀ s, (f s).view = g s.view)
    (hfunctions : ∀ s, (f s).functions = s.functions)
    (hstructs : ∀ s, (f s).structs = s.structs) :
    (tree.changed place f).view =
      ⟨⟨tree.view.scopes.items.modify place g⟩, tree.view.functions, tree.view.structs⟩ := by
  have hroot : ∀ {β : Type} (entries : ScopeRecord → List β), (∀ s, entries (f s) = entries s) →
      view.rootEntries (tree.changed place f) entries = view.rootEntries tree entries := by
    intro β entries hentries
    have hget : (tree.changed place f).scopes.get? SymbolTable.root = if place = 0 then
        (tree.scopes.get? SymbolTable.root).map f else tree.scopes.get? SymbolTable.root :=
      getElem?_changed 0
    rw [view.rootEntries, view.rootEntries, hget]
    by_cases hplace : place = 0
    · rw [if_pos hplace]
      cases tree.scopes.get? SymbolTable.root with
      | none => rfl
      | some s => exact hentries s
    · rw [if_neg hplace]
  have hscopes : (tree.changed place f).view.scopes.items =
      tree.view.scopes.items.modify place g := scopes_view_changed hview
  calc (tree.changed place f).view
    _ = ⟨⟨(tree.changed place f).view.scopes.items⟩,
          (view.rootEntries (tree.changed place f) ScopeRecord.functions).map Prod.snd,
          (view.rootEntries (tree.changed place f) ScopeRecord.structs).map Prod.snd⟩ := rfl
    _ = _ := by rw [hscopes, hroot _ hfunctions, hroot _ hstructs]; rfl

theorem WellFormed.changed (h : tree.WellFormed)
    (hstands : ∀ s, s.StandsAt place → (f s).StandsAt place)
    (hkept : ∀ s, (f s).kind = s.kind ∧ (f s).name = s.name ∧ (f s).children = s.children) :
    (tree.changed place f).WellFormed where
  bounded := by
    rw [size_changed]
    exact h.bounded
  root_exists := by
    obtain ⟨s, hs⟩ := h.root_exists
    rw [getElem?_changed, hs]
    split
    · exact ⟨_, rfl⟩
    · exact ⟨s, rfl⟩
  stands i s hs := by
    rw [getElem?_changed] at hs
    split at hs
    · next hi =>
        subst hi
        obtain ⟨s₀, hs₀, rfl⟩ := Option.map_eq_some_iff.mp hs
        exact hstands s₀ (h.stands _ s₀ hs₀)
    · exact h.stands i s hs
  children s hs kind name := by
    -- neither the entered scopes change nor the kinds and names of any scopes
    obtain ⟨s₀, hs₀⟩ := h.root_exists
    have hchildren : s.children = s₀.children := by
      rw [getElem?_changed, hs₀] at hs
      split at hs
      · obtain rfl := Option.some.inj hs
        exact (hkept s₀).2.2
      · obtain rfl := Option.some.inj hs
        rfl
    have hheads : (tree.changed place f).view.scopes.items.toList.map (fun s => (s.kind, s.name)) =
        tree.view.scopes.items.toList.map (fun s => (s.kind, s.name)) := by
      refine List.ext_getElem? fun i => ?_
      simp only [List.getElem?_map, Array.getElem?_toList, view, Array.getElem?_map,
        getElem?_changed]
      split
      · simp [Function.comp_def, ScopeRecord.view, hkept]
      · rfl
    rw [hchildren, h.children s₀ hs₀]
    exact (congrArg (Option.map _) (SymbolTable.lastMatch_congr kind name 0 hheads)).symm

end

-- ============================================================================
-- Declarations
-- ============================================================================

section Declarations

variable {tree : ScopeTree} {id : ScopeId}

/-- A variable is declared in a tree as it is in its view. -/
theorem view_declareVariable (tree : ScopeTree) (id : ScopeId) (b : Binding) :
    (tree.declareVariable id b).map view = tree.view.declareVariable id b := by
  by_cases hid : id.number.toNat < tree.scopes.size
  · have hview : Index.toNat id < tree.view.scopes.size := by
      rw [view_size]
      exact hid
    rw [declareVariable, modifyScope_ok hid, SymbolTable.declareVariable, Indexed.modify,
      if_pos hview]
    exact congrArg Except.ok (view_changed (fun _ => rfl) (fun _ => rfl) fun _ => rfl)
  · have hview : ¬ Index.toNat id < tree.view.scopes.size := by
      rw [view_size]
      exact hid
    rw [declareVariable, modifyScope_error hid, SymbolTable.declareVariable, Indexed.modify,
      if_neg hview]
    rfl

theorem WellFormed.declareVariable {tree' : ScopeTree} {b : Binding} (h : tree.WellFormed)
    (hdeclare : tree.declareVariable id b = .ok tree') :
    tree'.WellFormed ∧ tree'.scopes.size = tree.scopes.size := by
  by_cases hid : id.number.toNat < tree.scopes.size
  · rw [ScopeTree.declareVariable, modifyScope_ok hid] at hdeclare
    cases hdeclare
    refine ⟨h.changed (fun s hs => ?_) fun s => ⟨rfl, rfl, rfl⟩, size_changed⟩
    exact ⟨hs.id_eq, hs.parent_eq, hs.root_iff, hs.children, hs.functions, hs.structs⟩
  · rw [ScopeTree.declareVariable, modifyScope_error hid] at hdeclare
    cases hdeclare

/-- Variables of a scope that exists. -/
theorem WellFormed.declareVariables (h : tree.WellFormed) (id : ScopeId) (bindings : List Binding)
    (hid : id.number.toNat < tree.scopes.size) :
    ∃ tree', ScopeTree.declareVariables id bindings tree = .ok tree' ∧ tree'.WellFormed ∧
      tree'.scopes.size = tree.scopes.size ∧
      tree'.view = tree.view.bindAt id.number.toNat bindings := by
  induction bindings generalizing tree with
  | nil => exact ⟨tree, rfl, h, rfl, (SymbolTable.bindAt_nil _ _).symm⟩
  | cons b rest ih =>
      have hfirst : tree.declareVariable id b =
          .ok (tree.changed id.number.toNat (.addVariable b)) := modifyScope_ok hid _
      have hview : (tree.changed id.number.toNat (.addVariable b)).view =
          tree.view.bindAt id.number.toNat [b] :=
        view_changed (fun _ => rfl) (fun _ => rfl) fun _ => rfl
      obtain ⟨hwell, hsize⟩ := h.declareVariable hfirst
      obtain ⟨tree', hrest, hwell', hsize', hview'⟩ := ih hwell (hsize ▸ hid)
      refine ⟨tree', ?_, hwell', hsize'.trans hsize, ?_⟩
      · rw [ScopeTree.declareVariables, hfirst]
        exact hrest
      · rw [hview', hview, SymbolTable.bindAt_cons]

/-- The tree with one more scope below the root. -/
def created (tree : ScopeTree) (kind : ScopeKind) (name : String) : ScopeTree :=
  (⟨tree.scopes.push (.new tree.scopes.next kind (some name) (some SymbolTable.root))⟩ :
    ScopeTree).changed 0 (.addChild kind name tree.scopes.next)

theorem createChild_ok (tree : ScopeTree) (kind : ScopeKind) (name : String) :
    tree.createChild kind name = .ok (tree.scopes.next, tree.created kind name) := by
  have hroot : SymbolTable.root.number.toNat <
      (tree.scopes.push (.new tree.scopes.next kind (some name) (some SymbolTable.root))).size := by
    rw [Indexed.size, Indexed.push, Array.size_push]
    exact Nat.zero_lt_succ _
  have hentered : modifyScope ⟨tree.scopes.push (.new tree.scopes.next kind (some name)
      (some SymbolTable.root))⟩ SymbolTable.root (.addChild kind name tree.scopes.next) =
      .ok (tree.created kind name) := modifyScope_ok hroot _
  rw [createChild, hentered]
  rfl

theorem size_created (tree : ScopeTree) (kind : ScopeKind) (name : String) :
    (tree.created kind name).scopes.size = tree.scopes.size + 1 := by
  rw [created, size_changed]
  exact Array.size_push _

theorem view_created (tree : ScopeTree) (h : tree.WellFormed) (kind : ScopeKind) (name : String) :
    (tree.created kind name).view = (tree.view.addScope kind name []).2 := by
  obtain ⟨s, hs⟩ := h.root_exists
  have hpos := (Array.getElem?_eq_some_iff.mp hs).1
  have hpushed : ∀ {β : Type} (entries : ScopeRecord → List β), view.rootEntries
      ⟨tree.scopes.push (.new tree.scopes.next kind (some name) (some SymbolTable.root))⟩ entries =
        view.rootEntries tree entries := by
    intro β entries
    rw [rootEntries_eq entries hs]
    exact rootEntries_eq entries ((Array.getElem?_push_lt hpos).trans
      ((Array.getElem?_eq_getElem hpos).symm.trans hs))
  have hchild : ∀ s : ScopeRecord, (s.addChild kind name tree.scopes.next).view = id s.view :=
    fun _ => rfl
  rw [created, view_changed hchild (fun _ => rfl) fun _ => rfl,
    SymbolTable.modify_eq_self (g := id) _ _ fun _ => rfl]
  simp only [view, hpushed]
  exact congrArg (fun items => SymbolTable.mk ⟨items⟩ _ _) Array.map_push

theorem childScope?_addScope (table : SymbolTable) (kind kind' : ScopeKind)
    (name name' : String) : (table.addScope kind name []).2.childScope? kind' name' =
      if kind = kind' ∧ name = name' then some table.scopes.next
      else table.childScope? kind' name' := by
  have hlist : (table.addScope kind name []).2.scopes.items.toList =
      table.scopes.items.toList ++ [⟨kind, some name, []⟩] := Array.toList_push
  rw [SymbolTable.childScope?, hlist, SymbolTable.lastMatch_concat, SymbolTable.childScope?]
  simp only [Option.some.injEq, Nat.zero_add]
  split
  · rw [Option.map_some, Array.length_toList]
    rfl
  · rfl

theorem WellFormed.created (h : tree.WellFormed) (hsize : tree.scopes.size < UInt32.size)
    {kind : ScopeKind} (hkind : kind ≠ .root) (name : String) :
    (tree.created kind name).WellFormed := by
  obtain ⟨r, hr⟩ := h.root_exists
  have hpos := (Array.getElem?_eq_some_iff.mp hr).1
  have hget : ∀ i, (tree.created kind name).scopes.items[i]? =
      if i = 0 then some (r.addChild kind name tree.scopes.next)
      else if i = tree.scopes.size then
        some (.new tree.scopes.next kind (some name) (some SymbolTable.root))
      else tree.scopes.items[i]? := by
    intro i
    rw [ScopeTree.created, getElem?_changed]
    simp only [Indexed.push, Array.getElem?_push, Indexed.size]
    by_cases hi : i = 0
    · subst hi
      rw [if_pos rfl, if_neg (Nat.ne_of_lt hpos), hr, if_pos rfl]
      rfl
    · rw [if_neg (Ne.symm hi), if_neg hi]
      rfl
  refine ⟨?_, ?_, ?_, ?_⟩
  · rw [size_created]
    exact hsize
  · exact ⟨_, hget 0⟩
  · intro place s hs
    rw [hget] at hs
    split at hs
    · next hplace =>
        subst hplace
        obtain rfl := Option.some.inj hs
        have hstands := h.stands 0 r hr
        exact ⟨hstands.id_eq, hstands.parent_eq, hstands.root_iff,
          List.forall_mem_cons.mpr ⟨rfl, hstands.children⟩, hstands.functions, hstands.structs⟩
    · next hne =>
        split at hs
        · next hplace =>
            obtain rfl := Option.some.inj hs
            exact ⟨congrArg Index.ofNat hplace.symm, (if_neg hne).symm, iff_of_false hkind hne,
              List.forall_mem_nil _, List.forall_mem_nil _, List.forall_mem_nil _⟩
        · exact h.stands place s hs
  · intro s hs kind' name'
    rw [hget, if_pos rfl] at hs
    obtain rfl := Option.some.inj hs
    have hnext : tree.view.scopes.next = tree.scopes.next := by
      rw [Indexed.next, Indexed.next, view_size]
    rw [view_created tree h, childScope?_addScope, ← h.children r hr, hnext,
      ScopeRecord.addChild, List.lookup_cons]
    by_cases hsame : kind = kind' ∧ name = name'
    · obtain ⟨rfl, rfl⟩ := hsame
      simp
    · have hkey : ((kind', name') == (kind, name)) = false := by
        rw [beq_eq_false_iff_ne]
        rintro hkey
        exact hsame ⟨(congrArg Prod.fst hkey).symm, (congrArg Prod.snd hkey).symm⟩
      rw [hkey, if_neg hsame]

end Declarations

/-- Signatures and layouts are entered in the root. -/
structure Enters (enter : ScopeRecord → ScopeRecord) (signatures : List Signature)
    (layouts : List Layout) : Prop where
  stands : ∀ s, s.StandsAt 0 → (enter s).StandsAt 0
  view_eq : ∀ s, (enter s).view = s.view
  children_eq : ∀ s, (enter s).children = s.children
  functions_eq : ∀ s, (enter s).functions.map Prod.snd = signatures ++ s.functions.map Prod.snd
  structs_eq : ∀ s, (enter s).structs.map Prod.snd = layouts ++ s.structs.map Prod.snd

theorem enters_addFunction (signature : Signature) :
    Enters (.addFunction signature) [signature] [] where
  stands _ hs := ⟨hs.id_eq, hs.parent_eq, hs.root_iff, hs.children,
    List.forall_mem_cons.mpr ⟨⟨rfl, rfl⟩, hs.functions⟩, hs.structs⟩
  view_eq _ := rfl
  children_eq _ := rfl
  functions_eq _ := rfl
  structs_eq _ := rfl

theorem enters_addStruct (layout : Layout) : Enters (.addStruct layout) [] [layout] where
  stands _ hs := ⟨hs.id_eq, hs.parent_eq, hs.root_iff, hs.children, hs.functions,
    List.forall_mem_cons.mpr ⟨⟨rfl, rfl⟩, hs.structs⟩⟩
  view_eq _ := rfl
  children_eq _ := rfl
  functions_eq _ := rfl
  structs_eq _ := rfl

section Declarations

variable {tree : ScopeTree} {enter : ScopeRecord → ScopeRecord} {signatures : List Signature}
  {layouts : List Layout}

theorem view_entered (h : tree.WellFormed) (henters : Enters enter signatures layouts) :
    (tree.changed 0 enter).view =
      ⟨tree.view.scopes, signatures ++ tree.view.functions, layouts ++ tree.view.structs⟩ := by
  obtain ⟨r, hr⟩ := h.root_exists
  have hr' : (tree.changed 0 enter).scopes.items[0]? = some (enter r) := by
    rw [getElem?_changed, if_pos rfl, hr, Option.map_some]
  have hitems : (tree.changed 0 enter).view.scopes.items = tree.view.scopes.items := by
    rw [scopes_view_changed (g := id) henters.view_eq]
    exact SymbolTable.modify_eq_self _ _ fun _ => rfl
  have hscopes : (tree.changed 0 enter).view.scopes = tree.view.scopes :=
    congrArg Indexed.mk hitems
  calc (tree.changed 0 enter).view
    _ = ⟨(tree.changed 0 enter).view.scopes, (enter r).functions.map Prod.snd,
          (enter r).structs.map Prod.snd⟩ := by
        rw [← rootEntries_eq ScopeRecord.functions hr',
          ← rootEntries_eq ScopeRecord.structs hr']
        rfl
    _ = _ := by
        rw [hscopes, henters.functions_eq, henters.structs_eq,
          ← rootEntries_eq ScopeRecord.functions hr,
          ← rootEntries_eq ScopeRecord.structs hr]
        rfl

theorem WellFormed.entered (h : tree.WellFormed) (henters : Enters enter signatures layouts) :
    (tree.changed 0 enter).WellFormed := by
  refine h.changed henters.stands fun s => ?_
  have hview := henters.view_eq s
  exact ⟨congrArg Scope.kind hview, congrArg Scope.name hview, henters.children_eq s⟩

/-- A scope with its first variables is added to a tree as it is to its view. -/
theorem WellFormed.declareScope (h : tree.WellFormed) (hsize : tree.scopes.size < UInt32.size)
    {kind : ScopeKind} (hkind : kind ≠ .root) (name : String) (bindings : List Binding)
    (henters : Enters enter signatures layouts) :
    ∃ tree', tree.declareScope kind name bindings enter = .ok (tree.view.scopes.next, tree') ∧
      tree'.WellFormed ∧ tree'.scopes.size = tree.scopes.size + 1 ∧
      tree'.view = ⟨(tree.view.addScope kind name bindings.reverse).2.scopes,
        signatures ++ tree.view.functions, layouts ++ tree.view.structs⟩ := by
  have hid : (tree.scopes.next : ScopeId).number.toNat = tree.scopes.size :=
    Nat.mod_eq_of_lt hsize
  have hnext : tree.view.scopes.next = tree.scopes.next := by
    rw [Indexed.next, Indexed.next, view_size]
  have hcreated := h.created hsize hkind name
  have hin : (tree.scopes.next : ScopeId).number.toNat < (tree.created kind name).scopes.size := by
    rw [size_created, hid]
    exact Nat.lt_succ_self _
  obtain ⟨declared, hdeclared, hwell, hsize', hview⟩ := hcreated.declareVariables _ bindings hin
  have hroot : SymbolTable.root.number.toNat < declared.scopes.size := by
    rw [hsize', size_created]
    exact Nat.zero_lt_succ _
  refine ⟨declared.changed 0 enter, ?_, hwell.entered henters, ?_, ?_⟩
  · rw [ScopeTree.declareScope, createChild_ok, hnext]
    change (do
      let declared ← ScopeTree.declareVariables tree.scopes.next bindings (tree.created kind name)
      let entered ← declared.modifyScope SymbolTable.root enter
      return (tree.scopes.next, entered)) = _
    rw [hdeclared]
    change (do
      let entered ← declared.modifyScope SymbolTable.root enter
      return (tree.scopes.next, entered)) = _
    rw [modifyScope_ok hroot]
    rfl
  · rw [size_changed, hsize', size_created]
  · have hbound := SymbolTable.bindAt_addScope tree.view kind name [] bindings
      tree.view.functions tree.view.structs
    rw [List.append_nil, view_size] at hbound
    rw [view_entered hwell henters, hview, view_created tree h, hid]
    exact congrArg (fun table => SymbolTable.mk table.scopes (signatures ++ table.functions)
      (layouts ++ table.structs)) hbound

/-- A function is declared in a tree as it is in its view. -/
theorem view_declareFunction (h : tree.WellFormed) (hsize : tree.scopes.size < UInt32.size)
    (signature : Signature) : ∃ tree',
      tree.declareFunction signature = .ok ((tree.view.declareFunction signature).1, tree') ∧
        tree'.WellFormed ∧ tree'.scopes.size = tree.scopes.size + 1 ∧
        tree'.view = (tree.view.declareFunction signature).2 :=
  h.declareScope hsize (by decide) _ _ (enters_addFunction signature)

/-- A struct is declared in a tree as it is in its view. -/
theorem view_declareStruct (h : tree.WellFormed) (hsize : tree.scopes.size < UInt32.size)
    (layout : Layout) : ∃ tree',
      tree.declareStruct layout = .ok ((tree.view.declareStruct layout).1, tree') ∧
        tree'.WellFormed ∧ tree'.scopes.size = tree.scopes.size + 1 ∧
        tree'.view = (tree.view.declareStruct layout).2 :=
  h.declareScope hsize (by decide) _ _ (enters_addStruct layout)

/-- The scope of the body is declared in a tree as it is in its view. -/
theorem view_declareEntry (h : tree.WellFormed) (hsize : tree.scopes.size < UInt32.size) :
    ∃ tree', tree.declareEntry = .ok (tree.view.declareEntry.1, tree') ∧ tree'.WellFormed ∧
      tree'.scopes.size = tree.scopes.size + 1 ∧ tree'.view = tree.view.declareEntry.2 := by
  have hnext : tree.view.scopes.next = tree.scopes.next := by
    rw [Indexed.next, Indexed.next, view_size]
  refine ⟨tree.created .entry entryScopeName, ?_, h.created hsize (by decide) _, size_created _ _ _,
    view_created tree h _ _⟩
  rw [declareEntry, createChild_ok, ← hnext]
  rfl

end Declarations

-- ============================================================================
-- Look-ups
-- ============================================================================

section Lookups

variable {tree : ScopeTree} {α : Type}

/-- Way up from the root: there is nothing around it. -/
theorem climb_root {s : ScopeRecord} (hs : s.parent = none) (find : ScopeRecord → Option α)
    (n : Nat) : tree.climb find (n + 1) s = some (.ok (find s)) := by
  rw [climb, hs]

/-- Way up from a scope below the root: the root comes next, and then the way ends. -/
theorem climb_child {s r : ScopeRecord} (hs : s.parent = some SymbolTable.root)
    (hroot : tree.scope SymbolTable.root = .ok r) (hr : r.parent = none)
    (find : ScopeRecord → Option α) (n : Nat) :
    tree.climb find (n + 2) s = some (.ok ((find s).or (find r))) := by
  rw [climb, hs]
  simp only [hroot]
  cases find s with
  | some found => rfl
  | none => exact climb_root hr find n

theorem WellFormed.root_scope (h : tree.WellFormed) :
    ∃ r, tree.scopes.items[0]? = some r ∧ tree.scope SymbolTable.root = .ok r ∧
      r.parent = none := by
  obtain ⟨r, hr⟩ := h.root_exists
  exact ⟨r, hr, scope_eq_ok.mpr hr, (h.stands 0 r hr).parent_eq⟩

/-- Every way up ends, in the scope itself or in the root. -/
theorem WellFormed.lookup_eq (h : tree.WellFormed) {id : ScopeId} {s r : ScopeRecord}
    (hs : tree.scope id = .ok s) (hr : tree.scopes.items[0]? = some r)
    (find : ScopeRecord → Option α) :
    tree.lookup id find = some (.ok ((find s).or (find r))) := by
  obtain ⟨r', hr', hroot, hparent⟩ := h.root_scope
  obtain rfl := Option.some.inj (hr.symm.trans hr')
  have hstands := h.stands _ s (scope_eq_ok.mp hs)
  have hlt : id.number.toNat < tree.scopes.size :=
    (Array.getElem?_eq_some_iff.mp (scope_eq_ok.mp hs)).1
  rw [lookup, hs]
  by_cases hzero : id.number.toNat = 0
  · obtain rfl := Option.some.inj (hr.symm.trans (hzero ▸ scope_eq_ok.mp hs))
    obtain ⟨n, hn⟩ : ∃ n, tree.scopes.size = n + 1 := ⟨tree.scopes.size - 1, by omega⟩
    simp only [hn, Option.or_self]
    exact climb_root hparent find n
  · obtain ⟨n, hn⟩ : ∃ n, tree.scopes.size = n + 2 := ⟨tree.scopes.size - 2, by omega⟩
    simp only [hn]
    exact climb_child (hstands.parent_eq.trans (if_neg hzero)) hroot hparent find n

theorem variableTy?_view (s : ScopeRecord) (name : String) :
    s.view.find? name = s.variableTy? name := by
  rw [Scope.find?, ScopeRecord.view, ScopeRecord.variableTy?]
  induction s.variableTypes with
  | nil => rfl
  | cons entry rest ih =>
      rw [List.map_cons, List.find?_cons, List.lookup_cons]
      by_cases hname : entry.1 = name
      · simp [hname]
      · simp only [beq_eq_false_iff_ne.mpr hname, beq_eq_false_iff_ne.mpr (Ne.symm hname)]
        exact ih

/-- In a table whose keys are the names of the entries, the latest entry of a name is
    found. -/
theorem lookup_eq_find? {β : Type} {nameOf : β → String} {entries : List (String × β)}
    (h : ∀ entry ∈ entries, entry.1 = nameOf entry.2) (name : String) :
    entries.lookup name = (entries.map Prod.snd).find? fun b => nameOf b == name := by
  induction entries with
  | nil => rfl
  | cons entry rest ih =>
      obtain ⟨hentry, hrest⟩ := List.forall_mem_cons.mp h
      rw [List.map_cons, List.find?_cons, List.lookup_cons, ← hentry]
      by_cases hname : entry.1 = name
      · simp [hname]
      · simp only [beq_eq_false_iff_ne.mpr hname, beq_eq_false_iff_ne.mpr (Ne.symm hname)]
        exact ih hrest

/-- A scope that does not exist is no start for a look-up. -/
theorem lookup_error {id : ScopeId} {fault : Fault} (hs : tree.scope id = .error fault)
    (find : ScopeRecord → Option α) : tree.lookup id find = some (.error fault) := by
  rw [lookup, hs]

/-- What only the root has is found from every scope, or from none. -/
theorem WellFormed.lookup_entry {β : Type} {nameOf : β → String}
    {entries : ScopeRecord → List (String × β)} (h : tree.WellFormed)
    (hentries : ∀ place s, s.StandsAt place →
      ∀ entry ∈ entries s, place = 0 ∧ entry.1 = nameOf entry.2)
    {id : ScopeId} {s : ScopeRecord} (hs : tree.scope id = .ok s) (name : String) :
    tree.lookup id (fun s => (entries s).lookup name) =
      some (.ok (((view.rootEntries tree entries).map Prod.snd).find? fun b => nameOf b == name)) := by
  obtain ⟨r, hr⟩ := h.root_exists
  have hfound := lookup_eq_find? (fun entry hentry => (hentries 0 r (h.stands 0 r hr) entry hentry).2)
    name
  rw [h.lookup_eq hs hr, rootEntries_eq _ hr, ← hfound]
  by_cases hzero : id.number.toNat = 0
  · obtain rfl := Option.some.inj (hr.symm.trans (hzero ▸ scope_eq_ok.mp hs))
    rw [Option.or_self]
  · have hnone : entries s = [] := by
      refine List.eq_nil_iff_forall_not_mem.mpr fun entry hentry => hzero ?_
      exact (hentries _ s (h.stands _ s (scope_eq_ok.mp hs)) entry hentry).1
    rw [hnone]
    rfl

/-- A function is found in a tree as it is in its view. -/
theorem WellFormed.lookupFunction_eq (h : tree.WellFormed) (id : ScopeId) (name : String) :
    tree.lookupFunction id name = some (tree.view.lookupFunction id name) := by
  rw [lookupFunction, SymbolTable.lookupFunction, view_scope]
  cases hs : tree.scope id with
  | error fault => exact lookup_error hs _
  | ok s => exact h.lookup_entry (fun _ _ hstands => hstands.functions) hs name

/-- A struct is found in a tree as it is in its view. -/
theorem WellFormed.lookupStruct_eq (h : tree.WellFormed) (id : ScopeId) (name : String) :
    tree.lookupStruct id name = some (tree.view.lookupStruct id name) := by
  rw [lookupStruct, SymbolTable.lookupStruct, view_scope]
  cases hs : tree.scope id with
  | error fault => exact lookup_error hs _
  | ok s => exact h.lookup_entry (fun _ _ hstands => hstands.structs) hs name

theorem WellFormed.parent?_view (h : tree.WellFormed) {id : ScopeId} {s : ScopeRecord}
    (hs : tree.scope id = .ok s) : SymbolTable.parent? s.view = s.parent := by
  have hstands := h.stands _ s (scope_eq_ok.mp hs)
  rw [hstands.parent_eq, SymbolTable.parent?]
  have hkind : s.view.kind = s.kind := rfl
  split
  · next hroot => rw [if_pos (hstands.root_iff.mp (hkind ▸ hroot))]
  · next hother => rw [if_neg (mt hstands.root_iff.mpr (hkind ▸ hother))]

/-- A variable is found in a tree as it is in its view. -/
theorem WellFormed.lookupVariable_eq (h : tree.WellFormed) (id : ScopeId) (name : String) :
    tree.lookupVariable id name = some (tree.view.lookupVariable id name) := by
  rw [lookupVariable, SymbolTable.lookupVariable, view_scope]
  cases hs : tree.scope id with
  | error fault => exact lookup_error hs _
  | ok s =>
      obtain ⟨r, hr, hroot, -⟩ := h.root_scope
      have hstands := h.stands _ s (scope_eq_ok.mp hs)
      have hview : tree.view.scope SymbolTable.root = .ok r.view := by
        rw [view_scope, hroot]
        rfl
      rw [h.lookup_eq hs hr, Except.map]
      simp only [variableTy?_view, h.parent?_view hs]
      cases hown : s.variableTy? name with
      | some ty => rfl
      | none =>
          rw [hstands.parent_eq]
          by_cases hzero : id.number.toNat = 0
          · obtain rfl := Option.some.inj (hr.symm.trans (hzero ▸ scope_eq_ok.mp hs))
            rw [if_pos hzero, hown]
            rfl
          · rw [if_neg hzero]
            simp only [hview, variableTy?_view, Option.none_or]

/-- A scope of a kind and name is found in a tree as it is in its view. -/
theorem WellFormed.childScope?_eq (h : tree.WellFormed) (kind : ScopeKind) (name : String) :
    tree.childScope? kind name = .ok (tree.view.childScope? kind name) := by
  obtain ⟨r, hr, hroot, -⟩ := h.root_scope
  rw [childScope?, hroot, ← h.children r hr]
  rfl

end Lookups

-- ============================================================================
-- The tree of a program
-- ============================================================================

section Programs

variable {tree : ScopeTree}

theorem view_addStruct (h : tree.WellFormed) (hsize : tree.scopes.size < UInt32.size)
    (s : StructDef) : ∃ tree', tree.addStruct s = .ok tree' ∧ tree'.WellFormed ∧
      tree'.scopes.size = tree.scopes.size + 1 ∧ tree'.view = tree.view.addStruct s := by
  obtain ⟨tree', hdeclare, hwell, hsize', hview⟩ :=
    view_declareStruct h hsize ⟨s.name, s.fields.map FieldDef.binding⟩
  refine ⟨tree', ?_, hwell, hsize', hview⟩
  rw [addStruct, hdeclare]
  rfl

/-- The parameters and then the variables of the body are those of the scope of a
    function. -/
theorem view_addFunction (h : tree.WellFormed) (hsize : tree.scopes.size < UInt32.size)
    (f : FunctionDef) : ∃ tree', tree.addFunction f = .ok tree' ∧ tree'.WellFormed ∧
      tree'.scopes.size = tree.scopes.size + 1 ∧ tree'.view = tree.view.addFunction f := by
  obtain ⟨declared, hdeclare, hwell, hsize', hview⟩ :=
    view_declareFunction h hsize ⟨f.name, f.params, f.result⟩
  have hid : (tree.view.declareFunction ⟨f.name, f.params, f.result⟩).1.number.toNat =
      tree.view.scopes.size := by
    rw [← view_size] at hsize
    exact Nat.mod_eq_of_lt hsize
  obtain ⟨tree', hlocals, hwell', hsize'', hview'⟩ :=
    hwell.declareVariables (tree.view.declareFunction ⟨f.name, f.params, f.result⟩).1
      (Stmt.declaresAll f.body)
      (by rw [hid, hsize', view_size]; exact Nat.lt_succ_self _)
  refine ⟨tree', ?_, hwell', hsize''.trans hsize', ?_⟩
  · rw [addFunction, hdeclare]
    exact hlocals
  · rw [hview', hview, hid, SymbolTable.addFunction, List.reverse_append]
    exact SymbolTable.bindAt_addScope _ _ _ _ _ _ _

/-- Definitions that are added to a tree one by one are added to its view. -/
theorem view_foldlM {δ : Type} {add : ScopeTree → δ → Except Fault ScopeTree}
    {addView : SymbolTable → δ → SymbolTable}
    (hadd : ∀ tree : ScopeTree, tree.WellFormed → tree.scopes.size < UInt32.size → ∀ d,
      ∃ tree', add tree d = .ok tree' ∧ tree'.WellFormed ∧
        tree'.scopes.size = tree.scopes.size + 1 ∧ tree'.view = addView tree.view d)
    (ds : List δ) (h : tree.WellFormed) (hsize : tree.scopes.size + ds.length ≤ UInt32.size) :
    ∃ tree', ds.foldlM add tree = .ok tree' ∧ tree'.WellFormed ∧
      tree'.scopes.size = tree.scopes.size + ds.length ∧
      tree'.view = ds.foldl addView tree.view := by
  induction ds generalizing tree with
  | nil => exact ⟨tree, rfl, h, rfl, rfl⟩
  | cons d rest ih =>
      rw [List.length_cons] at hsize
      obtain ⟨tree₁, hfirst, hwell₁, hsize₁, hview₁⟩ := hadd tree h (by omega) d
      obtain ⟨tree', hrest, hwell, hsize', hview⟩ := ih hwell₁ (by omega)
      refine ⟨tree', ?_, hwell, ?_, ?_⟩
      · rw [List.foldlM_cons, hfirst]
        exact hrest
      · rw [hsize', hsize₁, List.length_cons]
        omega
      · rw [hview, hview₁, List.foldl_cons]

/-- The tree of a program has the table of the program as its view, if there is a number
    for each of its scopes. -/
theorem view_ofProgram (program : Program)
    (hsize : program.structs.length + program.functions.length + 2 ≤ UInt32.size) :
    ∃ tree, ofProgram program = .ok tree ∧ tree.WellFormed ∧
      tree.view = .ofProgram program := by
  have hnew : new.scopes.size = 1 := rfl
  obtain ⟨structs, hstructs, hwell, hsize₁, hview⟩ := view_foldlM
    (fun _ h hsize s => view_addStruct h hsize s) program.structs wellFormed_new (by omega)
  obtain ⟨functions, hfunctions, hwell₂, hsize₂, hview₂⟩ := view_foldlM
    (fun _ h hsize f => view_addFunction h hsize f) program.functions hwell (by omega)
  have hlt : functions.scopes.size < UInt32.size := by omega
  obtain ⟨entry, hentry, hwell₃, hsize₃, hview₃⟩ := view_declareEntry hwell₂ hlt
  have hid : functions.view.declareEntry.1.number.toNat = functions.view.scopes.size := by
    rw [← view_size] at hlt
    exact Nat.mod_eq_of_lt hlt
  obtain ⟨tree, htree, hwell', -, hview'⟩ :=
    hwell₃.declareVariables functions.view.declareEntry.1 (Stmt.declaresAll program.body)
      (by rw [hid, hsize₃, view_size]; exact Nat.lt_succ_self _)
  refine ⟨tree, ?_, hwell', ?_⟩
  · simp only [ofProgram, hstructs, hfunctions, hentry, bind, Except.bind]
    exact htree
  · have hbound := SymbolTable.bindAt_addScope functions.view .entry entryScopeName []
      (Stmt.declaresAll program.body) functions.view.functions functions.view.structs
    rw [List.append_nil] at hbound
    rw [hview', hview₃, hid, SymbolTable.ofProgram, ← view_new, ← hview, ← hview₂]
    exact hbound

end Programs

end ScopeTree

end JasminGen
