/-
  JasminGen.Proofs.Constructors

  The constructors of structs. A constructor is lowered in the scope of its struct, where
  no name has a slot and pointers to functions cannot be made. So no initial value
  mentions a name, and as calls and accesses start from names, it has none of these
  either. What is left computes numbers and booleans, or makes an empty list.

  Main definitions: `Expr.isClosed`, `SetsFields`. Main result: `constructor_of_struct`.
-/

import JasminGen.Proofs.Balance
import JasminGen.Proofs.SlotUse
import JasminGen.Proofs.Walks

namespace JasminGen

-- ============================================================================
-- Closed expressions
-- ============================================================================

/-- No name, call, access to a list or access to a field occurs anywhere in the
    expression. -/
def Expr.isClosed : Expr → Bool
  | .int _ | .bool _ => true
  | .ident _ | .index _ _ | .call _ _ | .field _ _ => false
  | .group e | .unary _ e | .size e => e.isClosed
  | .binary _ l r | .append l r => l.isClosed && r.isClosed

/-- The types of expressions that mention no name. -/
def Ty.isScalar : Ty → Bool
  | .int | .bool | .void => true
  | .struct _ | .list _ | .fptr _ _ => false

theorem SymbolTable.typeOf_closed (table : SymbolTable) (id : ScopeId) :
    ∀ {e : Expr} {ty : Ty}, e.isClosed = true → table.typeOf id e = .ok ty → ty.isScalar = true
  | .int _, _, _, h | .bool _, _, _, h | .append _ _, _, _, h | .size _, _, _, h => by
      cases h
      rfl
  | .binary op _ _, _, _, h => by
      cases h
      cases op <;> rfl
  | .unary op _, _, _, h => by
      cases h
      cases op <;> rfl
  | .group e, _, hclosed, h => typeOf_closed table id (e := e) hclosed h

-- ============================================================================
-- Instructions of initial values
-- ============================================================================

/-- The methods that the code of an initial value calls: those of wrappers and lists. -/
def valueMethods : List Method :=
  [.integerValueOf, .integerIntValue, .booleanValueOf, .booleanBooleanValue, .listInit,
    .listAddElement, .listGetSize]

/-- The instructions that make initial values. They work on the operand stack only. -/
def Instr.makesValue : Instr → Bool
  | .aconstNull | .iconst0 | .iconst1 | .ldcInt _ | .dup | .iadd | .isub | .imul | .idiv | .ineg
  | .ixor | .branch _ _ | .goto _ => true
  | .new className => className = listClass
  | .invoke method => method ∈ valueMethods
  | _ => false

def Code.makesValue : Code → Bool
  | .instr x => x.makesValue
  | .label _ => true
  | _ => false

theorem ZeroCode.makesValue {S : Setting} {id : ScopeId} {ty : Ty} {is : List Instr}
    (h : ZeroCode S id ty is) (hty : ∀ struct, ty ≠ .struct struct) :
    (is.map Code.instr).all Code.makesValue = true := by
  cases h with
  | struct => exact absurd rfl (hty _)
  | _ => rfl

/-- The code of two operands makes values, and so does all code around it. -/
theorem makesValue_operands {c d : List Code} (between after : List Code)
    (hc : c.all Code.makesValue = true) (hd : d.all Code.makesValue = true)
    (h : (between ++ after).all Code.makesValue = true) :
    (c ++ (between ++ (d ++ after))).all Code.makesValue = true := by
  rw [List.all_append, Bool.and_eq_true] at h
  rw [List.all_append, List.all_append, List.all_append, hc, hd, h.1, h.2]
  rfl

/-- The code of an operand makes values, and so does the code after it. -/
theorem makesValue_operand {c : List Code} (after : List Code)
    (hc : c.all Code.makesValue = true) (h : after.all Code.makesValue = true) :
    (c ++ after).all Code.makesValue = true := by
  rw [List.all_append, hc, h]
  rfl

-- ============================================================================
-- Lowering in the scope of a struct
-- ============================================================================

/-- Code is lowered in the scope of a struct, and no name has a slot. -/
structure InStruct (S : Setting) (f : Frame) : Prop where
  scope : ∃ s, S.symbols.scope f.activeScope = .ok s ∧ s.kind = .struct
  slots : f.slots = .empty

theorem InStruct.afterPair {S : Setting} {f : Frame} (h : InStruct S f) : InStruct S f.afterPair :=
  ⟨h.scope, h.slots⟩

/-- No name has a slot, or gets one. -/
theorem InStruct.not_slotOf {S : Setting} {f f' : Frame} {name : String} {slot : Nat}
    (h : InStruct S f) : ¬ SlotOf S f name slot f' := by
  obtain ⟨⟨s, hs, hkind⟩, hslots⟩ := h
  rintro (hknown | ⟨-, hscope, -, htaken, -⟩)
  · rw [hslots] at hknown
    cases hknown
  · rw [hs] at hscope
    cases hscope
    rcases htaken with htaken | htaken <;> rw [hkind] at htaken <;> cases htaken

/-- What is lowered in the scope of a struct is closed, and its code makes values. -/
theorem ExprLowered.closed {S : Setting} {e : Expr} {f f' : Frame} {parts : List Fragment}
    (h : ExprLowered S (.one e) f parts f') (hS : S.oracle = S.symbols.typeOf)
    (hf : InStruct S f) :
    e.isClosed = true ∧ InStruct S f' ∧ (Fragment.codeAll parts).all Code.makesValue = true := by
  generalize ht : ExprTask.one e = t at h
  induction h generalizing e with
  | argsNil | argsCopied | argsPassed => cases ht
  | int =>
      cases ht
      exact ⟨rfl, hf, rfl⟩
  | @bool f b =>
      cases ht
      exact ⟨rfl, hf, by cases b <;> rfl⟩
  | function _ hscope hkind =>
      -- pointers are not made in the scope of a struct
      obtain ⟨s, hs, hstruct⟩ := hf.scope
      rw [hs] at hscope
      cases hscope
      exact absurd hstruct hkind
  | «variable» _ hslot => exact absurd hslot hf.not_slotOf
  | group _ ih =>
      cases ht
      obtain ⟨hclosed, hf', hcode⟩ := ih hf rfl
      exact ⟨hclosed, hf', by simpa using hcode⟩
  | @arith f f₁ f' op l r pl pr _ _ ihl ihr =>
      cases ht
      obtain ⟨hl, hf₁, hcodel⟩ := ihl hf rfl
      obtain ⟨hr, hf', hcoder⟩ := ihr hf₁ rfl
      refine ⟨by simp [Expr.isClosed, hl, hr], hf', ?_⟩
      exact makesValue_operands [.instr (.invoke .integerIntValue)] _ hcodel hcoder
        (by cases op <;> rfl)
  | order _ _ ihl ihr =>
      cases ht
      obtain ⟨hl, hf₁, hcodel⟩ := ihl hf rfl
      obtain ⟨hr, hf₂, hcoder⟩ := ihr hf₁ rfl
      refine ⟨by simp [Expr.isClosed, hl, hr], hf₂.afterPair, ?_⟩
      exact makesValue_operands [.instr (.invoke .integerIntValue)] _ hcodel hcoder rfl
  | equalReferences _ _ _ _ ihl ihr =>
      cases ht
      obtain ⟨hl, hf₁, hcodel⟩ := ihl hf rfl
      obtain ⟨hr, hf₂, hcoder⟩ := ihr hf₁ rfl
      refine ⟨by simp [Expr.isClosed, hl, hr], hf₂.afterPair, ?_⟩
      exact makesValue_operands [] _ hcodel hcoder rfl
  | @logic f f₁ f' op l r pl pr _ _ ihl ihr =>
      cases ht
      obtain ⟨hl, hf₁, hcodel⟩ := ihl hf.afterPair rfl
      obtain ⟨hr, hf', hcoder⟩ := ihr hf₁ rfl
      refine ⟨by simp [Expr.isClosed, hl, hr], hf', ?_⟩
      exact makesValue_operands [.instr (.invoke .booleanBooleanValue), .instr (.branch _ _)] _
        hcodel hcoder (by cases op <;> rfl)
  | @equalValues f f₁ f₂ l r pl pr ty m _ hm _ _ ihl ihr =>
      cases ht
      obtain ⟨hl, hf₁, hcodel⟩ := ihl hf rfl
      obtain ⟨hr, hf₂, hcoder⟩ := ihr hf₁ rfl
      refine ⟨by simp [Expr.isClosed, hl, hr], hf₂.afterPair, ?_⟩
      exact makesValue_operands [.instr (.invoke m)] _ hcodel hcoder
        (by cases ty <;> cases hm <;> rfl)
  | not _ ih | neg _ ih | size _ ih =>
      cases ht
      obtain ⟨hclosed, hf', hcode⟩ := ih hf rfl
      exact ⟨hclosed, hf', makesValue_operand _ hcode rfl⟩
  | append _ _ ihl ihr =>
      cases ht
      obtain ⟨hl, hf₁, hcodel⟩ := ihl hf rfl
      obtain ⟨hr, hf', hcoder⟩ := ihr hf₁ rfl
      refine ⟨by simp [Expr.isClosed, hl, hr], hf', ?_⟩
      exact makesValue_operands [.instr .dup] _ hcodel hcoder rfl
  | @index f f₁ f' l r pl pr ty name htype _ _ _ ihl ihr =>
      -- a closed expression is no list
      obtain ⟨hl, -⟩ := ihl hf rfl
      rw [hS] at htype
      replace htype : (S.symbols.typeOf f.activeScope l).bind SymbolTable.elementTy = .ok ty :=
        htype
      cases hlist : S.symbols.typeOf f.activeScope l with
      | error failure =>
          rw [hlist] at htype
          cases htype
      | ok listTy =>
          have hplain := SymbolTable.typeOf_closed _ _ hl hlist
          rw [hlist] at htype
          cases listTy with
          | list => cases hplain
          | _ => cases htype
  | @call f f₁ f' target args pt pa params result htype _ _ iht _ =>
      -- and it is no pointer
      obtain ⟨hclosed, -⟩ := iht hf rfl
      rw [hS] at htype
      cases SymbolTable.typeOf_closed _ _ hclosed htype

-- ============================================================================
-- Fields
-- ============================================================================

def Instr.isStore : Instr → Bool
  | .putfield _ _ _ => true
  | _ => false

def Code.store? : Code → Option Instr
  | .instr x => if x.isStore then some x else none
  | _ => none

/-- The instructions of code that set fields, in order. -/
def stores (code : List Code) : List Instr :=
  code.filterMap Code.store?

/-- The instructions that set the fields of an object of the class, in order of
    declaration. -/
def storesOf (className : String) (fields : List FieldDef) : List Instr :=
  fields.map fun field => .putfield className field.name field.ty

/-- An instruction that makes values, loads the receiver or sets one of the fields. -/
def Instr.SetsOneOf (className : String) (fields : List FieldDef) (x : Instr) : Prop :=
  x.makesValue = true ∨ x = .aload receiverSlot ∨ x ∈ storesOf className fields

theorem Instr.isStore_of_makesValue {x : Instr} (h : x.makesValue = true) : x.isStore = false := by
  cases x with
  | putfield => cases h
  | _ => rfl

theorem Instr.makesValue_of_mem {code : List Code} (h : code.all Code.makesValue = true)
    {x : Instr} (hx : .instr x ∈ code) : x.makesValue = true :=
  List.all_eq_true.mp h (.instr x) hx

theorem stores_of_makesValue {code : List Code} (h : code.all Code.makesValue = true) :
    stores code = [] := by
  rw [stores, List.filterMap_eq_nil_iff]
  intro c hc
  cases c with
  | instr x => simp [Code.store?, Instr.isStore_of_makesValue (Instr.makesValue_of_mem h hc)]
  | _ => rfl

section Fields

variable {S : Setting} {f f' : Frame} {p : List Fragment} {className : String}

theorem InitialLowered.closed {field : FieldDef} (h : InitialLowered S field f p f')
    (hS : S.oracle = S.symbols.typeOf) (hf : InStruct S f) :
    (∀ e, field.value = some e → e.isClosed = true) ∧ InStruct S f' ∧
      (Fragment.codeAll p).all Code.makesValue = true := by
  cases h with
  | value he =>
      obtain ⟨hclosed, hf', hcode⟩ := he.closed hS hf
      refine ⟨?_, hf', by simpa using hcode⟩
      rintro e ⟨⟩
      exact hclosed
  | null => exact ⟨by simp, hf, rfl⟩
  | zero hty hz => exact ⟨by simp, hf, by simpa using hz.makesValue hty⟩

/-- Initial values are closed, and each field is set by one instruction. -/
theorem FieldsLowered.closed {fields : List FieldDef}
    (h : FieldsLowered S className fields f p f') (hS : S.oracle = S.symbols.typeOf)
    (hf : InStruct S f) :
    (∀ field ∈ fields, ∀ e, field.value = some e → e.isClosed = true) ∧
      (∀ x, .instr x ∈ Fragment.codeAll p → x.SetsOneOf className fields) ∧
      stores (Fragment.codeAll p) = storesOf className fields := by
  induction h with
  | nil => exact ⟨by simp, by simp, rfl⟩
  | @cons f f₁ f' field rest p ps hi _ ih =>
      obtain ⟨hvalue, hf₁, hcode⟩ := hi.closed hS hf
      obtain ⟨hvalues, hinstrs, hstores⟩ := ih hf₁
      refine ⟨List.forall_mem_cons.mpr ⟨hvalue, hvalues⟩, ?_, ?_⟩
      · intro x hx
        simp only [Fragment.codeAll_cons, Fragment.codeAll_append, Fragment.code_instr,
          List.singleton_append, List.mem_cons, List.mem_append, Code.instr.injEq] at hx
        rcases hx with hx | hx | hx | hx
        · exact .inr (.inl hx)
        · exact .inl (Instr.makesValue_of_mem hcode hx)
        · exact .inr (.inr (hx ▸ List.mem_cons_self))
        · exact (hinstrs x hx).imp_right (.imp_right (List.mem_cons_of_mem _))
      · have hinit := stores_of_makesValue hcode
        unfold stores at hinit hstores ⊢
        simp [hinit, hstores, storesOf, Code.store?, Instr.isStore]

/-- A walk through the code that sets the fields comes to its end with all of them set in
    order, or stops inside of it with the first few of them set. -/
theorem FieldsLowered.walk {fields : List FieldDef} {code : List Code} {place k : Nat}
    {trace : List Instr} (h : FieldsLowered S className fields f p f')
    (hS : S.oracle = S.symbols.typeOf) (hf : InStruct S f) (hnodup : (declared code).Nodup)
    (hat : At code place (Fragment.codeAll p)) (hwalk : Walk code place trace k) :
    (∃ done rest, trace = done ++ rest ∧ done.filter Instr.isStore = storesOf className fields ∧
        Walk code (place + (Fragment.codeAll p).length) rest k) ∨
      (trace.filter Instr.isStore <+: storesOf className fields ∧
        k < place + (Fragment.codeAll p).length) := by
  induction h generalizing place trace with
  | nil => exact .inl ⟨[], trace, rfl, rfl, hwalk⟩
  | @cons f f₁ f' field rest p ps hi _ ih =>
      obtain ⟨-, hf₁, hcode⟩ := hi.closed hS hf
      have hnone : ∀ inside : List Instr, (∀ x ∈ inside, .instr x ∈ Fragment.codeAll p) →
          inside.filter Instr.isStore = [] := by
        intro inside hinside
        rw [List.filter_eq_nil_iff]
        intro x hx
        simp [Instr.isStore_of_makesValue (Instr.makesValue_of_mem hcode (hinside x hx))]
      simp only [Fragment.codeAll_cons, Fragment.codeAll_append, Fragment.code_instr,
        List.singleton_append, List.length_cons, List.length_append, At.cons_iff, At.append_iff]
        at hat ⊢
      obtain ⟨hload, hatValue, hput, hatRest⟩ := hat
      -- the receiver is loaded, the value is made, the field is set, and so on
      rcases hwalk.plain hload rfl with ⟨rfl, rfl⟩ | ⟨trace₁, rfl, hwalk₁⟩
      · exact .inr ⟨by simp, by omega⟩
      obtain ⟨inside, trace₂, rfl, hinside, hwalk₂⟩ :=
        hwalk₁.through_segment hi.labelled.2 hnodup hatValue
      have hload : (Instr.aload receiverSlot).isStore = false := rfl
      rcases hwalk₂ with ⟨rfl, hk⟩ | hwalk₂
      · exact .inr ⟨by simp [hload, hnone inside hinside], by omega⟩
      rcases hwalk₂.plain hput rfl with ⟨rfl, rfl⟩ | ⟨trace₃, rfl, hwalk₃⟩
      · exact .inr ⟨by simp [hload, hnone inside hinside], by omega⟩
      have hstored : (Instr.putfield className field.name field.ty).isStore = true := rfl
      rcases ih hf₁ hatRest hwalk₃ with ⟨done, trace₄, rfl, hdone, hwalk₄⟩ | ⟨hfirst, hk⟩
      · refine .inl ⟨.aload receiverSlot :: (inside ++ .putfield className field.name field.ty ::
          done), trace₄, by simp, ?_, ?_⟩
        · simp [hload, hstored, hnone inside hinside, hdone, storesOf]
        · convert hwalk₄ using 1
          omega
      · refine .inr ⟨?_, by omega⟩
        simpa [hload, hstored, hnone inside hinside, storesOf] using hfirst

end Fields

-- ============================================================================
-- Constructors
-- ============================================================================

/-- The code of a constructor that depends on nothing but its receiver, and sets its
    fields. -/
structure SetsFields (s : StructDef) (body : List Code) : Prop where
  /-- No slot is used but that of the receiver. -/
  slots : ∀ x slot, .instr x ∈ body → x.slot? = some slot → slot = receiverSlot
  /-- No objects are made but lists. -/
  instances : ∀ className, .instr (.new className) ∈ body → className = listClass
  /-- Nothing is called but the constructor of the superclass and the methods of wrappers
      and lists: no generated constructor, and no pointer to a function. -/
  calls : ∀ method, .instr (.invoke method) ∈ body → method = .objectInit ∨ method ∈ valueMethods
  /-- There is one store for each field, in order of declaration. -/
  stores : stores body = storesOf s.name s.fields
  /-- Unless labels repeat, the stores are performed in this order, and all of them before
      the constructor returns. -/
  performs : (s.fields.map FieldDef.labelCount).sum ≤ UInt32.size →
    ∀ trace k, Walk body 0 trace k →
      trace.filter Instr.isStore <+: storesOf s.name s.fields ∧
        (body[k]? = some (.instr .ret) → trace.filter Instr.isStore = storesOf s.name s.fields)

/-- What neither loads the receiver nor sets a field makes values. -/
theorem Instr.SetsOneOf.makesValue {s : StructDef} {x : Instr} (h : x.SetsOneOf s.name s.fields)
    (hload : x ≠ .aload receiverSlot) (hstore : x.isStore = false) : x.makesValue = true := by
  rcases h with hvalue | heq | hmem
  · exact hvalue
  · exact absurd heq hload
  · obtain ⟨field, -, rfl⟩ := List.mem_map.mp hmem
    cases hstore

theorem Instr.SetsOneOf.slot {s : StructDef} {x : Instr} {slot : Nat}
    (h : x.SetsOneOf s.name s.fields) (hslot : x.slot? = some slot) : slot = receiverSlot := by
  by_contra hne
  have hload : x ≠ .aload receiverSlot := by
    rintro rfl
    exact hne (Option.some.inj hslot).symm
  have hstore : x.isStore = false := by
    cases x <;> cases hslot <;> rfl
  have hvalue := h.makesValue hload hstore
  cases x <;> cases hslot <;> cases hvalue

theorem not_setsOneOf_ret (s : StructDef) : ¬ Instr.ret.SetsOneOf s.name s.fields := by
  intro h
  cases h.makesValue nofun rfl

/-- A constructor's code. -/
def constructorCode (p : List Fragment) : List Code :=
  (.instr (.aload receiverSlot) :: .instr (.invoke .objectInit) :: Fragment.codeAll p) ++
    [.instr .ret]

theorem codeAll_constructor (p : List Fragment) :
    Fragment.codeAll (superParts ++ p ++ [.instr .ret]) = constructorCode p := by
  simp [superParts, constructorCode]

section Constructor

variable {S : Setting} {s : StructDef} {f f' : Frame} {p : List Fragment}

/-- The fields are set in order on every walk through a constructor. -/
theorem FieldsLowered.performs (h : FieldsLowered S s.name s.fields f p f')
    (hS : S.oracle = S.symbols.typeOf) (hf : InStruct S f)
    (hcount : (s.fields.map FieldDef.labelCount).sum ≤ UInt32.size) {trace : List Instr} {k : Nat}
    (hwalk : Walk (constructorCode p) 0 trace k) :
    trace.filter Instr.isStore <+: storesOf s.name s.fields ∧
      ((constructorCode p)[k]? = some (.instr .ret) →
        trace.filter Instr.isStore = storesOf s.name s.fields) := by
  obtain ⟨-, hinstrs, -⟩ := h.closed hS hf
  have hnodup : (declared (constructorCode p)).Nodup := by
    simpa [constructorCode] using h.labelled.2.declared_nodup hcount
  have hbefore := (At.append_iff.mp (At.refl (constructorCode p))).1
  obtain ⟨hload, hrest⟩ := At.cons_iff.mp hbefore
  obtain ⟨hsuper, hatFields⟩ := At.cons_iff.mp hrest
  have hret : (constructorCode p)[0 + 1 + 1 + (Fragment.codeAll p).length]? =
      some (.instr .ret) := by
    rw [Nat.add_comm]
    simp [constructorCode]
  have hloads : (Instr.aload receiverSlot).isStore = false := rfl
  have hcalls : (Instr.invoke .objectInit).isStore = false := rfl
  -- the only return is the one at the end
  have hinside : k < (Fragment.codeAll p).length + 2 →
      (constructorCode p)[k]? ≠ some (.instr .ret) := by
    intro hk heq
    have hmem := hbefore.mem (Nat.zero_le k) (by simp only [List.length_cons]; omega) heq
    simp only [List.mem_cons, Code.instr.injEq, reduceCtorEq, false_or] at hmem
    exact not_setsOneOf_ret s (hinstrs _ hmem)
  rcases hwalk.plain hload rfl with ⟨rfl, rfl⟩ | ⟨trace₁, rfl, hwalk₁⟩
  · exact ⟨by simp, fun hend => absurd hend (hinside (by omega))⟩
  rcases hwalk₁.plain hsuper rfl with ⟨rfl, rfl⟩ | ⟨trace₂, rfl, hwalk₂⟩
  · exact ⟨by simp [hloads], fun hend => absurd hend (hinside (by omega))⟩
  rcases h.walk hS hf hnodup hatFields hwalk₂ with ⟨done, rest, rfl, hdone, hwalk₃⟩ | ⟨hfirst, hk⟩
  · obtain ⟨rfl, -⟩ := hwalk₃.leave hret rfl rfl
    have hall : (.aload receiverSlot :: .invoke .objectInit :: (done ++ [])).filter Instr.isStore =
        storesOf s.name s.fields := by
      simp [hloads, hcalls, hdone]
    exact ⟨hall ▸ List.prefix_rfl, fun _ => hall⟩
  · refine ⟨by simpa [hloads, hcalls] using hfirst, fun hend => absurd hend (hinside (by omega))⟩

theorem FieldsLowered.setsFields (h : FieldsLowered S s.name s.fields f p f')
    (hS : S.oracle = S.symbols.typeOf) (hf : InStruct S f) :
    SetsFields s (constructorCode p) := by
  obtain ⟨-, hinstrs, hstores⟩ := h.closed hS hf
  have hmem : ∀ x, .instr x ∈ constructorCode p →
      x = .invoke .objectInit ∨ x = .ret ∨ x.SetsOneOf s.name s.fields := by
    intro x hx
    simp only [constructorCode, List.mem_cons, List.mem_append, List.not_mem_nil, or_false,
      Code.instr.injEq] at hx
    rcases hx with (hx | hx | hx) | hx
    · exact .inr (.inr (.inr (.inl hx)))
    · exact .inl hx
    · exact .inr (.inr (hinstrs x hx))
    · exact .inr (.inl hx)
  refine ⟨?_, ?_, ?_, ?_, fun hcount _ _ hwalk => h.performs hS hf hcount hwalk⟩
  · intro x slot hx hslot
    rcases hmem x hx with rfl | rfl | hx
    · cases hslot
    · cases hslot
    · exact hx.slot hslot
  · intro className hnew
    rcases hmem _ hnew with hx | hx | hx
    · cases hx
    · cases hx
    · exact of_decide_eq_true (hx.makesValue nofun rfl)
  · intro method hcall
    rcases hmem _ hcall with hx | hx | hx
    · exact .inl (Instr.invoke.inj hx)
    · cases hx
    · exact .inr (of_decide_eq_true (hx.makesValue nofun rfl))
  · unfold stores at hstores ⊢
    simp [constructorCode, hstores, Code.store?, Instr.isStore]

end Constructor

-- ============================================================================
-- Main result
-- ============================================================================

/-- The unit of a struct declares its fields and has one method, a constructor without
    names, calls and accesses in its initial values, that depends on nothing but its
    receiver and sets each field once, with the declared type. -/
theorem constructor_of_struct (program : Program) (options : Options) (s : StructDef) (f : Frame)
    (hsize : program.structs.length < UInt32.size)
    (hrun : (s.lower (.ofProgram program options) f).result = .ok ()) :
    (∀ field ∈ s.fields, ∀ e, field.value = some e → e.isClosed = true) ∧
      ∃ body, SetsFields s body ∧
        codesOf ((s.lower (.ofProgram program options) f).requests.map Request.action) =
          .classHeader s.name :: (s.fields.map FieldDef.declaration ++
            .methodHeader "public <init>()V" :: (body ++ [.endMethod])) := by
  obtain ⟨a⟩ := StructDef.lower_actions ⟨hrun, rfl, rfl⟩
  have hscope : InStruct (.ofProgram program options) ⟨a.id :: f.entered, .empty, f.nextLabel⟩ :=
    ⟨SymbolTable.scope_struct hsize a.scope, rfl⟩
  refine ⟨(a.fields_lowered.closed rfl hscope).1, constructorCode a.parts,
    a.fields_lowered.setsFields rfl hscope, ?_⟩
  rw [a.codes, codeAll_constructor]

/-- A struct with a field of each kind of initial value. -/
def accountStruct : StructDef :=
  ⟨"Account", [⟨"limit", .int, some (.binary (.arith .mul) (.int 4) (.group (.int 5)))⟩,
    ⟨"active", .bool, some (.binary (.order .lt) (.int 1) (.size (.append (.int 2) (.int 3))))⟩,
    ⟨"entries", .list .int, none⟩, ⟨"owner", .struct "Account", none⟩,
    ⟨"check", .fptr [.int] .bool, none⟩]⟩

theorem constructor_of_accountStruct :
    (accountStruct.lower (.ofProgram ⟨[accountStruct], [], []⟩ {}) .initial).result = .ok () ∧
      (∀ field ∈ accountStruct.fields, ∀ e, field.value = some e → e.isClosed = true) ∧
      ∃ body, SetsFields accountStruct body ∧
        codesOf ((accountStruct.lower (.ofProgram ⟨[accountStruct], [], []⟩ {})
          .initial).requests.map Request.action) =
          .classHeader accountStruct.name :: (accountStruct.fields.map FieldDef.declaration ++
            .methodHeader "public <init>()V" :: (body ++ [.endMethod])) :=
  ⟨rfl, constructor_of_struct _ {} accountStruct .initial (by decide) rfl⟩

end JasminGen
