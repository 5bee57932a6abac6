/-
  JasminGen.Proofs.Validity

  Valid programs. What makes a program valid is said about its text alone: which names a
  body may read and assign to, which expressions have types, and how many slots a method
  needs. The symbol table of a valid program gives every expression the type that the
  text gives it, so no construct is to blame for anything and code is generated.

  Main definitions: `Program.Types`, `Origin.Valid`, `Program.Valid`. Main results:
  `Program.Types.typeOf_eq` and its converse `Program.types_of_typeOf`, `HasType.types_eq`
  (these types and those of the typing rules), `generate_of_valid`.
-/

import JasminGen.Proofs.Failures
import JasminGen.Proofs.ProgramSymbols
import JasminGen.Proofs.Typing

namespace JasminGen

-- ============================================================================
-- Variables of a body
-- ============================================================================

/-- The variables of a method: its parameters, and what is declared anywhere in its code. -/
def Origin.bindings : Origin → List Binding
  | .function f => f.bindings
  | o => SourceNode.locals o.inside

-- ============================================================================
-- Valid programs
-- ============================================================================

/-- `program.Types vars e ty`: with the variables `vars`, of which a later one hides an
    earlier one, the expression `e` has the type `ty`. Operands are not looked at, and a
    field access has no type. -/
inductive Program.Types (program : Program) (vars : List Binding) : Expr → Ty → Prop where
  | int {n : Int32} : program.Types vars (.int n) .int
  | bool {b : Bool} : program.Types vars (.bool b) .bool
  | function {f : FunctionDef} :
      f ∈ program.functions → program.Types vars (.ident f.name) f.signature.pointerTy
  | var {name : String} {ty : Ty} :
      name ∉ program.functions.map FunctionDef.name →
      (vars.reverse.find? fun b => b.name == name).map Binding.ty = some ty →
      program.Types vars (.ident name) ty
  | group {e : Expr} {ty : Ty} : program.Types vars e ty → program.Types vars (.group e) ty
  | binary {op : BinaryOp} {l r : Expr} : program.Types vars (.binary op l r) op.resultTy
  | unary {op : UnaryOp} {e : Expr} : program.Types vars (.unary op e) op.resultTy
  | index {l r : Expr} {element : Ty} :
      program.Types vars l (.list element) → program.Types vars (.index l r) element
  | append {l r : Expr} : program.Types vars (.append l r) .void
  | size {e : Expr} : program.Types vars (.size e) .int
  | call {target : Expr} {args : List Expr} {params : List Ty} {result : Ty} :
      program.Types vars target (.fptr params result) →
      program.Types vars (.call target args) result

/-- What has a scope with variables: the body of the program and its functions. -/
def Program.bodies (program : Program) : List Origin :=
  .body program.body :: program.functions.map Origin.function

/-- What is asked of the body of a program and of a function. -/
structure Origin.Valid (program : Program) (o : Origin) : Prop where
  typed : ∀ e, .expr e ∈ o.inside → ∃ ty, program.Types o.bindings e ty
  compared : ∀ l r, .expr (.binary .equal l r) ∈ o.inside →
    ∃ ty, program.Types o.bindings l ty ∧ ty.Comparable
  elements : ∀ l r, .expr (.index l r) ∈ o.inside →
    ∃ ty, program.Types o.bindings (.index l r) ty ∧ ty ≠ .void
  assigned : ∀ target e, .stmt (.assign target e) ∈ o.inside →
    ∃ b ∈ o.bindings, target = .ident b.name
  displayed : ∀ e, .stmt (.display e) ∈ o.inside →
    program.Types o.bindings e .int ∨ program.Types o.bindings e .bool
  nonvoid : ∀ b ∈ o.bindings, b.ty ≠ .void
  structs : ∀ name struct, .stmt (.declare name (.struct struct) none) ∈ o.inside →
    struct ∈ program.structs.map StructDef.name
  slots : (o.bindings.map Binding.name).toFinset.card + o.loopCount < slotLimit

/-- An expression of literals and operators. -/
inductive Expr.Constant : Expr → Prop where
  | int {n : Int32} : Constant (.int n)
  | bool {b : Bool} : Constant (.bool b)
  | group {e : Expr} : e.Constant → Constant (.group e)
  | binary {op : BinaryOp} {l r : Expr} : l.Constant → r.Constant → Constant (.binary op l r)
  | unary {op : UnaryOp} {e : Expr} : e.Constant → Constant (.unary op e)

structure FieldDef.Valid (field : FieldDef) : Prop where
  nonvoid : field.ty ≠ .void
  constant : ∀ e ∈ field.value, e.Constant

/-- A valid program. It has no more scopes than there are numbers for them. -/
structure Program.Valid (program : Program) : Prop where
  distinct : (program.functions.map FunctionDef.name).Nodup
  unreserved : ∀ s ∈ program.structs, s.name ∉ reservedClasses
  fields : ∀ s ∈ program.structs, ∀ field ∈ s.fields, field.Valid
  bodies : ∀ o ∈ program.bodies, o.Valid program
  scopes : program.structs.length + program.functions.length + 2 ≤ UInt32.size

-- ============================================================================
-- Types
-- ============================================================================

variable {program : Program} {options : Options} {id : ScopeId} {scope : Scope}

/-- The symbol table gives an expression the type that the text gives it. -/
theorem Program.Types.typeOf_eq {vars : List Binding} {e : Expr} {ty : Ty}
    (hdistinct : (program.functions.map FunctionDef.name).Nodup)
    (hscope : (SymbolTable.ofProgram program).scope id = .ok scope)
    (hbindings : scope.bindings = vars.reverse) (h : program.Types vars e ty) :
    (SymbolTable.ofProgram program).typeOf id e = .ok ty := by
  induction h with
  | int | bool | binary | unary | append | size => rfl
  | function hf =>
      change SymbolTable.typeOfName _ id _ = _
      rw [SymbolTable.typeOfName, SymbolTable.lookupFunction, hscope,
        SymbolTable.function?_eq hdistinct hf]
  | @var name ty hname hfound =>
      have hfunction : (SymbolTable.ofProgram program).function? name = none := by
        rw [SymbolTable.isSome_function?_ofProgram] at hname
        simpa using hname
      have hlookup : (SymbolTable.ofProgram program).lookupVariable id name = .ok (some ty) := by
        rw [SymbolTable.lookupVariable_ofProgram hscope, Scope.find?, hbindings, hfound]
      change SymbolTable.typeOfName _ id _ = _
      rw [SymbolTable.typeOfName, SymbolTable.lookupFunction, hscope, hfunction, hlookup]
  | group _ ih => exact ih
  | index _ ih =>
      change (SymbolTable.typeOf.go _ id _).bind SymbolTable.elementTy = _
      rw [show SymbolTable.typeOf.go (SymbolTable.ofProgram program) id _ = _ from ih]
      rfl
  | call _ ih => exact SymbolTable.typeOf_call.mpr ⟨_, ih⟩

/-- A type that the symbol table gives a name is one that the text gives it. -/
theorem Program.types_of_typeOfName {vars : List Binding} {name : String} {ty : Ty}
    (hdistinct : (program.functions.map FunctionDef.name).Nodup)
    (hscope : (SymbolTable.ofProgram program).scope id = .ok scope)
    (hbindings : scope.bindings = vars.reverse)
    (h : (SymbolTable.ofProgram program).typeOfName id name = .ok ty) :
    program.Types vars (.ident name) ty := by
  have hlookup := SymbolTable.lookupFunction_eq h
  by_cases hname : name ∈ program.functions.map FunctionDef.name
  · obtain ⟨f, hf, rfl⟩ := List.mem_map.mp hname
    rw [SymbolTable.function?_eq hdistinct hf] at hlookup
    rw [SymbolTable.typeOfName_function hlookup h]
    exact .function hf
  · have hnone : (SymbolTable.ofProgram program).function? name = none := by
      rw [SymbolTable.isSome_function?_ofProgram] at hname
      simpa using hname
    rw [hnone] at hlookup
    have hvariable := SymbolTable.typeOfName_variable hlookup h
    rw [SymbolTable.lookupVariable_ofProgram hscope, Scope.find?, hbindings] at hvariable
    exact .var hname (Except.ok.inj hvariable)

/-- A type that the symbol table gives an expression is one that the text gives it. -/
theorem Program.types_of_typeOf {vars : List Binding}
    (hdistinct : (program.functions.map FunctionDef.name).Nodup)
    (hscope : (SymbolTable.ofProgram program).scope id = .ok scope)
    (hbindings : scope.bindings = vars.reverse) :
    ∀ {e : Expr} {ty : Ty}, (SymbolTable.ofProgram program).typeOf id e = .ok ty →
      program.Types vars e ty
  | .int _, _, h => Except.ok.inj h ▸ .int
  | .bool _, _, h => Except.ok.inj h ▸ .bool
  | .ident _, _, h => types_of_typeOfName hdistinct hscope hbindings h
  | .group e, _, h => .group (types_of_typeOf hdistinct hscope hbindings (e := e) h)
  | .binary _ _ _, _, h => Except.ok.inj h ▸ .binary
  | .unary _ _, _, h => Except.ok.inj h ▸ .unary
  | .index _ _, _, h =>
      .index (types_of_typeOf hdistinct hscope hbindings (SymbolTable.typeOf_index h))
  | .append _ _, _, h => Except.ok.inj h ▸ .append
  | .size _, _, h => Except.ok.inj h ▸ .size
  | .call _ _, _, h => by
      obtain ⟨params, htarget⟩ := SymbolTable.typeOf_call.mp h
      exact .call (types_of_typeOf hdistinct hscope hbindings htarget)

/-- Where the rules of the language and the text both give an expression a type, it is the
    same type, unless the expression is an append: by the rules it leaves the list it has
    added to, and by the text it has no value. -/
theorem HasType.types_eq {vars : List Binding} {e : Expr} {ty found : Ty}
    (h : HasType (.ofProgram program) id e ty)
    (hdistinct : (program.functions.map FunctionDef.name).Nodup)
    (hscope : (SymbolTable.ofProgram program).scope id = .ok scope)
    (hbindings : scope.bindings = vars.reverse) (hfound : program.Types vars e found) :
    found = if e.isAppend then .void else ty := by
  have htypeOf := hfound.typeOf_eq hdistinct hscope hbindings
  cases happend : e.isAppend with
  | false => exact h.typeOf_eq htypeOf happend
  | true => exact Except.ok.inj (htypeOf.symm.trans (SymbolTable.typeOf_append happend))

theorem Program.Types.of_call {vars : List Binding} {target : Expr} {args : List Expr} {ty : Ty}
    (h : program.Types vars (.call target args) ty) :
    ∃ params, program.Types vars target (.fptr params ty) := by
  cases h with
  | call ht => exact ⟨_, ht⟩

/-- A constant has the type `int` or `bool` in every scope. -/
theorem Expr.Constant.typeOf_comparable {e : Expr} (h : e.Constant) (table : SymbolTable)
    (id : ScopeId) : ∃ ty, table.typeOf id e = .ok ty ∧ ty.Comparable := by
  induction h with
  | int | bool => exact ⟨_, rfl, trivial⟩
  | group _ ih => exact ih
  | @binary op => exact ⟨op.resultTy, rfl, by cases op <;> trivial⟩
  | @unary op => exact ⟨op.resultTy, rfl, by cases op <;> trivial⟩

/-- Only constants stand in a constant. -/
theorem Expr.Constant.inside {e : Expr} (h : e.Constant) {node : SourceNode}
    (hnode : node ∈ e.inside) : ∃ e', node = .expr e' ∧ e'.Constant := by
  induction h with
  | int | bool => cases hnode
  | group he ih | unary he ih =>
      rcases List.mem_cons.mp hnode with rfl | hnode
      · exact ⟨_, rfl, he⟩
      · exact ih hnode
  | binary hl hr ihl ihr =>
      rcases List.mem_append.mp hnode with hnode | hnode
      · rcases List.mem_cons.mp hnode with rfl | hnode
        · exact ⟨_, rfl, hl⟩
        · exact ihl hnode
      · rcases List.mem_cons.mp hnode with rfl | hnode
        · exact ⟨_, rfl, hr⟩
        · exact ihr hnode

/-- Only constants stand in values of which each is one. -/
theorem Expr.mem_nodesOf_constant {es : List Expr} (hes : ∀ e ∈ es, e.Constant)
    {node : SourceNode} (hnode : node ∈ Expr.nodesOf es) :
    ∃ e, node = .expr e ∧ e.Constant := by
  induction es with
  | nil => cases hnode
  | cons e rest ih =>
      have he := hes e List.mem_cons_self
      rcases List.mem_append.mp hnode with hnode | hnode
      · rcases List.mem_cons.mp hnode with rfl | hnode
        · exact ⟨e, rfl, he⟩
        · exact he.inside hnode
      · exact ih (fun other ho => hes other (List.mem_cons_of_mem e ho)) hnode

theorem StructDef.mem_inside_constructor {s : StructDef} (hs : ∀ field ∈ s.fields, field.Valid)
    {node : SourceNode} (hnode : node ∈ (Origin.constructor s).inside) :
    ∃ e, node = .expr e ∧ e.Constant := by
  refine Expr.mem_nodesOf_constant ?_ hnode
  intro e he
  obtain ⟨field, hfield, hvalue⟩ := List.mem_filterMap.mp he
  exact (hs field hfield).constant e hvalue

-- ============================================================================
-- No construct is to blame
-- ============================================================================

variable {node : SourceNode} {failure : Failure}

/-- The scope of a body holds the variables of the body. -/
structure Origin.ScopeOf (o : Origin) (scope : Scope) : Prop where
  kind : scope.kind = .function ∨ scope.kind = .entry
  bindings : scope.bindings = o.bindings.reverse

namespace Origin.ScopeOf

variable {o : Origin}

theorem isSome_find? (h : o.ScopeOf scope) {b : Binding} (hb : b ∈ o.bindings) :
    (scope.find? b.name).isSome := by
  rw [Scope.isSome_find?_iff, h.bindings]
  exact List.mem_map_of_mem (List.mem_reverse.mpr hb)

theorem not_struct (h : o.ScopeOf scope) : scope.kind ≠ .struct := by
  rcases h.kind with hkind | hkind <;> rw [hkind] <;> decide

/-- What is found in the scope has a slot. -/
theorem not_slotless (h : o.ScopeOf scope) {name : String} (hfound : (scope.find? name).isSome) :
    ¬ scope.Slotless name failure := by
  intro hslotless
  cases hslotless with
  | field hkind => exact h.not_struct hkind
  | unknown hunknown =>
      rcases hunknown with hnone | hroot
      · rw [hnone] at hfound
        cases hfound
      · rcases h.kind with hkind | hkind <;> rw [hkind] at hroot <;> cases hroot

theorem slotNames_subset (h : o.ScopeOf scope) :
    scope.slotNames ⊆ (o.bindings.map Binding.name).toFinset := by
  have hnames : (scope.bindings.map Binding.name).toFinset =
      (o.bindings.map Binding.name).toFinset := by
    rw [h.bindings, List.map_reverse, List.toFinset_reverse]
  rw [← hnames, Scope.slotNames]
  rcases h.kind with hkind | hkind <;> rw [hkind]

end Origin.ScopeOf

theorem Origin.mem_bindings {o : Origin} {name : String} {ty : Ty} {value : Option Expr}
    (h : .stmt (.declare name ty value) ∈ o.inside) : ⟨name, ty⟩ ∈ o.bindings := by
  have hdeclared : (⟨name, ty⟩ : Binding) ∈ SourceNode.locals o.inside :=
    List.mem_filterMap.mpr ⟨_, h, rfl⟩
  cases o with
  | function f => exact List.mem_append_right _ hdeclared
  | constructor s => exact hdeclared
  | entry => exact hdeclared
  | body ss => exact hdeclared

/-- In a valid body the text gives every expression the type that the rules of the
    language give it, and an append no value. -/
theorem Origin.Valid.types_of_hasType {o : Origin} (h : o.Valid program) (hs : o.ScopeOf scope)
    (hdistinct : (program.functions.map FunctionDef.name).Nodup)
    (hscope : (SymbolTable.ofProgram program).scope id = .ok scope) {e : Expr} {ty : Ty}
    (he : .expr e ∈ o.inside) (hty : HasType (.ofProgram program) id e ty) :
    program.Types o.bindings e (if e.isAppend then .void else ty) := by
  obtain ⟨found, hfound⟩ := h.typed e he
  rwa [← hty.types_eq hdistinct hscope hs.bindings hfound]

/-- A valid body has no defect in a scope with its variables. -/
theorem Origin.Valid.not_defect {o : Origin} (h : o.Valid program) (hs : o.ScopeOf scope)
    (hdistinct : (program.functions.map FunctionDef.name).Nodup)
    (hscope : (SymbolTable.ofProgram program).scope id = .ok scope) (hnode : node ∈ o.inside) :
    ¬ Defect (.ofProgram program options) id scope node failure := by
  have htypes {e : Expr} {ty found : Ty} (he : program.Types o.bindings e ty)
      (hfound : (SymbolTable.ofProgram program).typeOf id e = .ok found) : found = ty :=
    Except.ok.inj (hfound.symm.trans (he.typeOf_eq hdistinct hscope hs.bindings))
  intro hdefect
  cases hdefect with
  | untyped hfailure =>
      obtain ⟨ty, hty⟩ := h.typed _ hnode
      cases hfailure.symm.trans (hty.typeOf_eq hdistinct hscope hs.bindings)
  | @read name _ hfunction hslotless =>
      obtain ⟨ty, hty⟩ := h.typed _ hnode
      cases hty with
      | function hf =>
          rw [show (Setting.ofProgram program options).symbols.function? _ = _ from
            SymbolTable.function?_eq hdistinct hf] at hfunction
          cases hfunction
      | var _ hfound =>
          refine hs.not_slotless ?_ hslotless
          rw [Scope.find?, hs.bindings, hfound]
          rfl
  | functionInStruct _ hkind => exact hs.not_struct hkind
  | equality hfound hnot =>
      obtain ⟨ty, hty, hcomparable⟩ := h.compared _ _ hnode
      rw [htypes hty hfound] at hnot
      exact hnot hcomparable
  | @voids l r found hfound hclass =>
      obtain ⟨ty, hty, hne⟩ := h.elements l r hnode
      obtain rfl := htypes hty hfound
      cases found with
      | void => exact hne rfl
      | _ => cases hclass
  | callee hfound hnot =>
      obtain ⟨ty, hty⟩ := h.typed _ hnode
      obtain ⟨params, htarget⟩ := hty.of_call
      exact hnot params ty (htypes htarget hfound)
  | fieldAccess =>
      obtain ⟨ty, hty⟩ := h.typed _ hnode
      cases hty
  | declared hslotless =>
      exact hs.not_slotless (hs.isSome_find? (Origin.mem_bindings hnode)) hslotless
  | assigned hslotless =>
      obtain ⟨b, hb, htarget⟩ := h.assigned _ _ hnode
      cases htarget
      exact hs.not_slotless (hs.isSome_find? hb) hslotless
  | undefined hundefined =>
      have hdefined := (SymbolTable.isSome_struct?_ofProgram program _).mp (h.structs _ _ hnode)
      rw [show (SymbolTable.ofProgram program).struct? _ = none from hundefined] at hdefined
      cases hdefined
  | void => exact h.nonvoid _ (Origin.mem_bindings hnode) rfl
  | target hnot =>
      obtain ⟨b, -, htarget⟩ := h.assigned _ _ hnode
      exact hnot b.name htarget
  | display hfound hprinter =>
      rcases h.displayed _ hnode with hty | hty
      all_goals
        rw [htypes hty hfound] at hprinter
        cases hprinter

/-- A constant has no defect in any scope. -/
theorem Expr.Constant.not_defect {e : Expr} (h : e.Constant) {S : Setting}
    (horacle : S.oracle = S.symbols.typeOf) : ¬ Defect S id scope (.expr e) failure := by
  intro hdefect
  cases hdefect with
  | untyped hfailure =>
      obtain ⟨ty, hty, -⟩ := h.typeOf_comparable S.symbols id
      rw [horacle, hty] at hfailure
      cases hfailure
  | equality hfound hnot =>
      cases h with
      | binary hl =>
          obtain ⟨ty, hty, hcomparable⟩ := hl.typeOf_comparable S.symbols id
          rw [horacle, hty] at hfound
          cases hfound
          exact hnot hcomparable
  | read | functionInStruct | voids | callee | fieldAccess => cases h

-- ============================================================================
-- The methods of a valid program
-- ============================================================================

theorem Program.mem_bodies {o : Origin} :
    o ∈ program.bodies ↔ o = .body program.body ∨ ∃ f ∈ program.functions, o = .function f := by
  simp [bodies, eq_comm]

theorem Program.mem_origins {o : Origin} :
    o ∈ program.origins ↔
      (∃ s ∈ program.structs, o = .constructor s) ∨ o = .entry ∨ o ∈ program.bodies := by
  simp [origins, bodies, eq_comm]

theorem Program.Valid.scopeOf_body (h : program.Valid) {o : Origin}
    (ho : o ∈ program.bodies)
    (hscope : (SymbolTable.ofProgram program).scope (o.scopeId (.ofProgram program options)) =
      .ok scope) : o.ScopeOf scope := by
  rcases mem_bodies.mp ho with rfl | ⟨f, hf, rfl⟩
  · have hentry : ∃ id, (SymbolTable.ofProgram program).childScope? .entry entryScopeName = some id :=
      SymbolTable.childScope?_entry
    obtain ⟨id, hid⟩ := hentry
    have hown := SymbolTable.scope_entry h.scopes hid
    have hscopeId : (Origin.body program.body).scopeId (.ofProgram program options) = id :=
      congrArg (·.getD SymbolTable.root) hid
    rw [hscopeId, hown] at hscope
    obtain rfl := Except.ok.inj hscope
    refine ⟨.inr rfl, ?_⟩
    rw [entryScope, Stmt.declaresAll_eq_locals]
    rfl
  · obtain ⟨id, hid⟩ := SymbolTable.childScope?_function hf
    have hown := SymbolTable.scope_function h.distinct h.scopes hf hid
    have hscopeId : (Origin.function f).scopeId (.ofProgram program options) = id :=
      congrArg (·.getD SymbolTable.root) hid
    rw [hscopeId, hown] at hscope
    obtain rfl := Except.ok.inj hscope
    refine ⟨.inl rfl, ?_⟩
    rw [FunctionDef.scope, Stmt.declaresAll_eq_locals]
    rfl

/-- The parameters of a method are among its variables. -/
theorem Program.Valid.params_subset (h : program.Valid) {o : Origin}
    (ho : o ∈ program.bodies) :
    (o.params (.ofProgram program options)).toFinset ⊆
      (o.bindings.map Binding.name).toFinset := by
  rcases mem_bodies.mp ho with rfl | ⟨f, hf, rfl⟩
  · simp [Origin.params]
  · have hparams : (Origin.function f).params (.ofProgram program options) =
        f.params.map Binding.name := by
      have hsignature := SymbolTable.function?_eq h.distinct hf
      rw [Origin.params, show (Setting.ofProgram program options).symbols.function? f.name = _ from
        hsignature]
      rfl
    rw [hparams, Origin.bindings, FunctionDef.bindings, List.map_append, List.toFinset_append]
    exact Finset.subset_union_left

/-- A valid body needs the slots of its variables and loops at most. -/
theorem Program.Valid.slotCount_lt (h : program.Valid) {o : Origin}
    (ho : o ∈ program.bodies) : o.slotCount (.ofProgram program options) < slotLimit := by
  have hsubset : o.slotVariables (.ofProgram program options) ⊆
      (o.bindings.map Binding.name).toFinset := by
    refine Finset.union_subset (h.params_subset ho) (Finset.inter_subset_right.trans ?_)
    rw [Origin.scope?]
    cases hscope : (Setting.ofProgram program options).symbols.scope
        (o.scopeId (.ofProgram program options)) with
    | error fault => simp [Except.toOption]
    | ok scope => exact (h.scopeOf_body ho hscope).slotNames_subset
  have hcard := Finset.card_le_card hsubset
  have hslots := (h.bodies o ho).slots
  rw [Origin.slotCount]
  omega

/-- Constants take no slots. -/
theorem StructDef.slotCount_constructor {s : StructDef} (hs : ∀ field ∈ s.fields, field.Valid)
    (S : Setting) : (Origin.constructor s).slotCount S = 0 := by
  have hnone : (Origin.constructor s).inside.filterMap (SourceNode.varName? S) = [] := by
    rw [List.filterMap_eq_nil_iff]
    intro node hnode
    obtain ⟨e, rfl, he⟩ := s.mem_inside_constructor hs hnode
    cases he <;> rfl
  rw [Origin.slotCount, Origin.slotVariables, hnone]
  simp [Origin.params, Origin.loopCount]

/-- A valid program is not to blame for anything. -/
theorem Program.Valid.not_blames (h : program.Valid) :
    ¬ program.Blames (.ofProgram program options) failure := by
  intro hblame
  cases hblame with
  | reserved hs hreserved => exact h.unreserved _ hs hreserved
  | voidField hs hfield hvoid => exact (h.fields _ hs _ hfield).nonvoid hvoid
  | @construct o scope node _ ho hscope hnode hdefect =>
      rcases mem_origins.mp ho with ⟨s, hs, rfl⟩ | rfl | ho
      · obtain ⟨e, rfl, he⟩ := s.mem_inside_constructor (h.fields s hs) hnode
        exact he.not_defect rfl hdefect
      · cases hnode
      · exact (h.bodies o ho).not_defect (h.scopeOf_body ho hscope) h.distinct hscope hnode hdefect
  | @slots o ho hlimit =>
      have hlt : o.slotCount (.ofProgram program options) < slotLimit := by
        rcases mem_origins.mp ho with ⟨s, hs, rfl⟩ | rfl | ho
        · rw [s.slotCount_constructor (h.fields s hs)]
          decide
        · simp [Origin.slotCount, Origin.slotVariables, Origin.params, Origin.inside,
            Origin.loopCount, slotLimit]
        · exact h.slotCount_lt ho
      omega

/-- Code is generated for every valid program. -/
theorem generate_of_valid (program : Program) (h : program.Valid) (options : Options)
    (memory : Memory) : (generate (.ofProgram program options) program memory).1 = .ok () := by
  rcases generate_blames program options memory with ⟨hok, -⟩ | ⟨failure, -, hblame⟩
  · exact hok
  · exact absurd hblame h.not_blames

/-- A function that doubles its argument. -/
def doubling : FunctionDef where
  name := "twice"
  params := [⟨"n", .int⟩]
  result := .int
  body := [.ret (some (.binary (.arith .mul) (.ident "n") (.int 2)))]

/-- A program with variables in nested positions, one of them assigned to before it is
    declared. -/
def nestedLocals : Program where
  structs := [⟨"Point", [⟨"x", .int, some (.binary (.arith .add) (.int 1) (.int 2))⟩]⟩]
  functions := [doubling]
  body := [
    .declare "xs" (.list .int) none,
    .loop (.int 2) (.block [
      .declare "f" (.fptr [.int] .int) (some (.ident "twice")),
      .append (.ident "xs") (.call (.ident "f") [.int 3])]),
    .cond (.binary .equal (.size (.ident "xs")) (.int 2))
      (.declare "p" (.struct "Point") none)
      (some (.assign (.ident "y") (.index (.ident "xs") (.int 0)))),
    .declare "y" .int none,
    .display (.ident "y")]

theorem valid_nestedLocals_body : (Origin.body nestedLocals.body).Valid nestedLocals := by
  have hxs : nestedLocals.Types (Origin.body nestedLocals.body).bindings (.ident "xs")
    (.list .int) := .var (by decide) rfl
  have hf : nestedLocals.Types (Origin.body nestedLocals.body).bindings (.ident "f")
    (.fptr [.int] .int) := .var (by decide) rfl
  have hy : nestedLocals.Types (Origin.body nestedLocals.body).bindings (.ident "y") .int :=
    .var (by decide) rfl
  have htwice : nestedLocals.Types (Origin.body nestedLocals.body).bindings
    (.ident doubling.name) doubling.signature.pointerTy := .function List.mem_cons_self
  constructor
  case typed =>
    intro e he
    simp [Origin.inside, nestedLocals, Stmt.nodesOf, Stmt.inside, Expr.inside, Expr.nodesOf] at he
    rcases he with rfl | rfl | rfl | rfl | rfl | rfl | rfl | rfl | rfl | rfl | rfl | rfl | rfl |
      rfl | rfl
    exacts [⟨_, .int⟩, ⟨_, htwice⟩, ⟨_, .append⟩, ⟨_, hxs⟩, ⟨_, .call hf⟩, ⟨_, hf⟩, ⟨_, .int⟩,
      ⟨_, .binary⟩, ⟨_, .size⟩, ⟨_, hxs⟩, ⟨_, .int⟩, ⟨_, .index hxs⟩, ⟨_, hxs⟩, ⟨_, .int⟩, ⟨_, hy⟩]
  case compared =>
    intro l r h
    simp [Origin.inside, nestedLocals, Stmt.nodesOf, Stmt.inside, Expr.inside, Expr.nodesOf] at h
    obtain ⟨rfl, -⟩ := h
    exact ⟨_, .size, trivial⟩
  case elements =>
    intro l r h
    simp [Origin.inside, nestedLocals, Stmt.nodesOf, Stmt.inside, Expr.inside, Expr.nodesOf] at h
    obtain ⟨rfl, -⟩ := h
    exact ⟨_, .index hxs, by decide⟩
  case assigned =>
    intro target e h
    simp [Origin.inside, nestedLocals, Stmt.nodesOf, Stmt.inside, Expr.inside, Expr.nodesOf] at h
    obtain ⟨rfl, -⟩ := h
    exact ⟨⟨"y", .int⟩, by decide, rfl⟩
  case displayed =>
    intro e h
    simp [Origin.inside, nestedLocals, Stmt.nodesOf, Stmt.inside, Expr.inside, Expr.nodesOf] at h
    subst h
    exact .inl hy
  case nonvoid => decide
  case structs =>
    intro name struct h
    simp [Origin.inside, nestedLocals, Stmt.nodesOf, Stmt.inside, Expr.inside, Expr.nodesOf] at h
    obtain ⟨-, rfl⟩ := h
    decide
  case slots => decide

theorem valid_nestedLocals_function {f : FunctionDef} (hf : f ∈ nestedLocals.functions) :
    (Origin.function f).Valid nestedLocals := by
  obtain rfl := List.mem_singleton.mp hf
  constructor
  case typed =>
    intro e he
    simp [Origin.inside, doubling, Stmt.nodesOf, Stmt.inside, Expr.inside] at he
    rcases he with rfl | rfl | rfl
    exacts [⟨_, .binary⟩, ⟨.int, .var (by decide) rfl⟩, ⟨_, .int⟩]
  case nonvoid | slots => decide
  all_goals
    intros
    simp_all [Origin.inside, doubling, Stmt.nodesOf, Stmt.inside, Expr.inside]

theorem valid_nestedLocals : nestedLocals.Valid where
  distinct := by decide
  unreserved := by decide
  fields := by
    intro s hs field hfield
    obtain rfl := List.mem_singleton.mp hs
    obtain rfl := List.mem_singleton.mp hfield
    refine ⟨by decide, ?_⟩
    intro e he
    cases he
    exact .binary .int .int
  bodies := by
    intro o ho
    rcases Program.mem_bodies.mp ho with rfl | ⟨f, hf, rfl⟩
    · exact valid_nestedLocals_body
    · exact valid_nestedLocals_function hf
  scopes := by decide

theorem generate_nestedLocals :
    nestedLocals.Valid ∧
      (generate (.ofProgram nestedLocals {}) nestedLocals Memory.empty).1 = .ok () :=
  ⟨valid_nestedLocals, generate_of_valid _ valid_nestedLocals {} Memory.empty⟩

end JasminGen
