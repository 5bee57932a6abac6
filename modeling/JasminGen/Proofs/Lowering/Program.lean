/-
  JasminGen.Proofs.Lowering.Program

  The methods of a program's code. Generated code is cut into methods at their headers,
  and each method of a successful run comes from one part of the program: a struct, the
  static entry, the program's body or a function.

  Main definitions: `methods`, `Origin`, `MethodLowered`. Main result:
  `Program.lower_methods`.
-/

import JasminGen.Proofs.Actions
import JasminGen.Proofs.Lowering.Stmt

namespace JasminGen

open Gen
open Fragment (GenuineAll)

-- ============================================================================
-- Cutting code into methods
-- ============================================================================

/-- A method of generated code. -/
structure MethodCode where
  signature : String
  body : List Code

/-- The instructions and labels that code starts with, up to the end of the method. -/
def bodyOf : List Code → List Code
  | .instr i :: rest => .instr i :: bodyOf rest
  | .label l :: rest => .label l :: bodyOf rest
  | .entryBody :: _ => entryInstrs.map Code.instr
  | _ => []

/-- The methods of generated code, in order. -/
def methods : List Code → List MethodCode
  | [] => []
  | .methodHeader signature :: rest => ⟨signature, bodyOf rest⟩ :: methods rest
  | _ :: rest => methods rest

/-- Code in which no method starts or ends. -/
def Inner (code : List Code) : Prop :=
  ∀ c ∈ code, (∃ i, c = .instr i) ∨ ∃ l, c = .label l

mutual

theorem Fragment.inner_code : ∀ p : Fragment, Inner p.code
  | .instr i => by simp [Inner]
  | .label l => by simp [Inner]
  | .expr _ parts => by simpa using inner_codeAll parts
  | .stmt _ parts => by simpa using inner_codeAll parts

/-- A fragment holds nothing but instructions and labels. -/
theorem Fragment.inner_codeAll : ∀ parts : List Fragment, Inner (Fragment.codeAll parts)
  | [] => by simp [Inner]
  | p :: rest => by
      intro c hc
      rw [codeAll_cons, List.mem_append] at hc
      rcases hc with hc | hc
      · exact inner_code p c hc
      · exact inner_codeAll rest c hc

end

theorem bodyOf_inner_append {code : List Code} (h : Inner code) (rest : List Code) :
    bodyOf (code ++ .endMethod :: rest) = code := by
  induction code with
  | nil => rfl
  | cons c code ih =>
      have hrest := ih fun d hd => h d (List.mem_cons_of_mem c hd)
      rcases h c List.mem_cons_self with ⟨i, rfl⟩ | ⟨l, rfl⟩
      · rw [List.cons_append, bodyOf, hrest]
      · rw [List.cons_append, bodyOf, hrest]

theorem methods_inner_append {code : List Code} (h : Inner code) (rest : List Code) :
    methods (code ++ rest) = methods rest := by
  induction code with
  | nil => rfl
  | cons c code ih =>
      have hrest := ih fun d hd => h d (List.mem_cons_of_mem c hd)
      rcases h c List.mem_cons_self with ⟨i, rfl⟩ | ⟨l, rfl⟩
      · rw [List.cons_append, methods, hrest]
        simp
      · rw [List.cons_append, methods, hrest]
        simp

/-- `Consists codes ms`: the code is that of the methods `ms` in this order, with
    nothing outside of them but the directives of classes and fields. -/
inductive Consists : List Code → List MethodCode → Prop where
  | nil : Consists [] []
  | classHeader {name : String} {codes : List Code} {ms : List MethodCode} :
      Consists codes ms → Consists (.classHeader name :: codes) ms
  | field {name : String} {ty : Ty} {codes : List Code} {ms : List MethodCode} :
      Consists codes ms → Consists (.field name ty :: codes) ms
  | method {signature : String} {body codes : List Code} {ms : List MethodCode} :
      Inner body → Consists codes ms →
      Consists (.methodHeader signature :: (body ++ .endMethod :: codes)) (⟨signature, body⟩ :: ms)
  | entry {signature : String} {codes : List Code} {ms : List MethodCode} :
      Consists codes ms →
      Consists (.methodHeader signature :: .entryBody :: codes)
        (⟨signature, entryInstrs.map Code.instr⟩ :: ms)

namespace Consists

theorem append {codes codes' : List Code} {ms ms' : List MethodCode} (h : Consists codes ms)
    (h' : Consists codes' ms') : Consists (codes ++ codes') (ms ++ ms') := by
  induction h with
  | nil => exact h'
  | classHeader _ ih => exact .classHeader ih
  | field _ ih => exact .field ih
  | method hbody _ ih => simpa using Consists.method hbody ih
  | entry _ ih => exact .entry ih

theorem methods_eq {codes : List Code} {ms : List MethodCode} (h : Consists codes ms) :
    methods codes = ms := by
  induction h with
  | nil => rfl
  | classHeader _ ih | field _ ih => simpa [methods] using ih
  | method hbody _ ih =>
      rw [methods, bodyOf_inner_append hbody, methods_inner_append hbody, methods, ih]
      simp
  | entry _ ih =>
      rw [methods, bodyOf, methods, ih]
      simp

/-- What is collected from the instructions and labels of the code is collected from
    those of its methods. -/
theorem filterMap_eq {α : Type} {codes : List Code} {ms : List MethodCode}
    (h : Consists codes ms) {g : Code → Option α}
    (hg : ∀ c, (∀ i, c ≠ .instr i) → (∀ l, c ≠ .label l) → g c = none)
    (hentry : ∀ i ∈ entryInstrs, g (.instr i) = none) :
    codes.filterMap g = ms.flatMap fun m => m.body.filterMap g := by
  have entry_none : (entryInstrs.map Code.instr).filterMap g = [] := by
    rw [List.filterMap_eq_nil_iff]
    intro c hc
    obtain ⟨i, hi, rfl⟩ := List.mem_map.mp hc
    exact hentry i hi
  induction h with
  | nil => rfl
  | classHeader _ ih | field _ ih =>
      rw [List.filterMap_cons_none (hg _ (by simp) (by simp)), ih]
  | method _ _ ih =>
      rw [List.filterMap_cons_none (hg _ (by simp) (by simp)), List.filterMap_append,
        List.filterMap_cons_none (hg _ (by simp) (by simp)), ih, List.flatMap_cons]
  | entry _ ih =>
      rw [List.filterMap_cons_none (hg _ (by simp) (by simp)),
        List.filterMap_cons_none (hg _ (by simp) (by simp)), ih, List.flatMap_cons, entry_none,
        List.nil_append]

end Consists

-- ============================================================================
-- The rules
-- ============================================================================

/-- What a method is made from: a struct, nothing for the static entry, the program's
    body, or a function. -/
inductive Origin where
  | constructor (s : StructDef)
  | entry
  | body (ss : List Stmt)
  | function (f : FunctionDef)

/-- The methods that a program is to have, in order. -/
def Program.origins (program : Program) : List Origin :=
  program.structs.map Origin.constructor ++ .entry :: .body program.body ::
    program.functions.map Origin.function

/-- The scope that the code of a method is lowered in. The static entry has none of its
    own. -/
def Origin.scopeId (S : Setting) : Origin → ScopeId
  | .constructor s => (S.symbols.childScope? .struct s.name).getD SymbolTable.root
  | .entry => SymbolTable.root
  | .body _ => (S.symbols.childScope? .entry entryScopeName).getD SymbolTable.root
  | .function f => (S.symbols.childScope? .function f.name).getD SymbolTable.root

/-- The code of the value that a field starts with. -/
inductive InitialLowered (S : Setting) : FieldDef → Frame → List Fragment → Frame → Prop where
  | value {f f' : Frame} {name : String} {ty : Ty} {e : Expr} {p : List Fragment} :
      ExprLowered S (.one e) f p f' →
      InitialLowered S ⟨name, ty, some e⟩ f [.expr e p] f'
  | null {f : Frame} {name struct : String} :
      InitialLowered S ⟨name, .struct struct, none⟩ f [.instr .aconstNull] f
  | zero {f : Frame} {name : String} {ty : Ty} {is : List Instr} :
      (∀ struct, ty ≠ .struct struct) → ZeroCode S f.activeScope ty is →
      InitialLowered S ⟨name, ty, none⟩ f (is.map Fragment.instr) f

/-- The code that sets the fields of a receiver. -/
inductive FieldsLowered (S : Setting) (className : String) :
    List FieldDef → Frame → List Fragment → Frame → Prop where
  | nil {f : Frame} : FieldsLowered S className [] f [] f
  | cons {f f₁ f' : Frame} {field : FieldDef} {rest : List FieldDef} {p ps : List Fragment} :
      InitialLowered S field f p f₁ → FieldsLowered S className rest f₁ ps f' →
      FieldsLowered S className (field :: rest) f
        (.instr (.aload receiverSlot) :: (p ++
          .instr (.putfield className field.name field.ty) :: ps)) f'

/-- The call of the superclass's constructor that a constructor starts with. -/
def superParts : List Fragment :=
  [.instr (.aload receiverSlot), .instr (.invoke .objectInit)]

/-- A method as it is lowered. -/
structure LoweredMethod where
  signature : String
  parts : List Fragment

def LoweredMethod.code (m : LoweredMethod) : MethodCode :=
  ⟨m.signature, Fragment.codeAll m.parts⟩

/-- `MethodLowered S o n m n'`: the method of `o` is lowered to `m`, where `n` is the
    next label before and `n'` the one after. -/
inductive MethodLowered (S : Setting) : Origin → Label → LoweredMethod → Label → Prop where
  | constructor {s : StructDef} {id : ScopeId} {n : Label} {f' : Frame} {p : List Fragment} :
      S.symbols.childScope? .struct s.name = some id →
      FieldsLowered S s.name s.fields ⟨[id], .empty, n⟩ p f' →
      MethodLowered S (.constructor s) n
        ⟨"public <init>()V", superParts ++ p ++ [.instr .ret]⟩ f'.nextLabel
  | entry {n : Label} :
      MethodLowered S .entry n
        ⟨"public static main([Ljava/lang/String;)V", entryInstrs.map Fragment.instr⟩ n
  | body {ss : List Stmt} {id : ScopeId} {n : Label} {f' : Frame} {p : List Fragment} :
      S.symbols.childScope? .entry entryScopeName = some id →
      StmtLowered S (.many ss) ⟨[id], .empty, n⟩ p f' →
      MethodLowered S (.body ss) n
        ⟨"public <init>()V", superParts ++ p ++ [.instr .ret]⟩ f'.nextLabel
  | function {f : FunctionDef} {id : ScopeId} {signature : Signature} {slots : SlotTable}
      {n : Label} {f' : Frame} {p : List Fragment} :
      S.symbols.childScope? .function f.name = some id →
      S.symbols.lookupFunction id f.name = .ok (some signature) →
      SlotTable.forMethod (signature.params.map Binding.name) = .ok slots →
      StmtLowered S (.many f.body) ⟨[id], slots, n⟩ p f' →
      MethodLowered S (.function f) n
        ⟨"public " ++ f.name ++ signature.descriptor,
          p ++ if signature.result.isVoid then [.instr .ret] else []⟩ f'.nextLabel

/-- The methods of several origins, lowered one after the other. The code of every
    construct in them is what lowering it emits. -/
inductive MethodsLowered (S : Setting) :
    List Origin → Label → List LoweredMethod → Label → Prop where
  | nil {n : Label} : MethodsLowered S [] n [] n
  | cons {o : Origin} {os : List Origin} {n n₁ n' : Label} {m : LoweredMethod}
      {ms : List LoweredMethod} :
      MethodLowered S o n m n₁ → GenuineAll S m.parts → MethodsLowered S os n₁ ms n' →
      MethodsLowered S (o :: os) n (m :: ms) n'

theorem MethodsLowered.append {S : Setting} {os os' : List Origin} {n n₁ n' : Label}
    {ms ms' : List LoweredMethod} (h : MethodsLowered S os n ms n₁)
    (h' : MethodsLowered S os' n₁ ms' n') :
    MethodsLowered S (os ++ os') n (ms ++ ms') n' := by
  induction h with
  | nil => exact h'
  | cons hm hg _ ih => exact .cons hm hg (ih h')

-- ============================================================================
-- Actions around methods
-- ============================================================================

/-- An action that writes into the open unit, or reports. -/
def Action.InUnit (action : Action) : Prop :=
  action.InBody ∨ ∃ line, action = .report line

/-- Actions that all write into the open unit, or report. -/
def InUnit (acts : List Action) : Prop :=
  ∀ action ∈ acts, action.InUnit

@[simp] theorem inUnit_nil : InUnit [] := by
  simp [InUnit]

@[simp] theorem inUnit_append {acts acts' : List Action} :
    InUnit (acts ++ acts') ↔ InUnit acts ∧ InUnit acts' := by
  simp only [InUnit, List.forall_mem_append]

@[simp] theorem inUnit_cons_code {c : Code} {acts : List Action} :
    InUnit (.code c :: acts) ↔ InUnit acts := by
  simp [InUnit, Action.InUnit, Action.InBody]

/-- Actions that do nothing but report. -/
def Reports (acts : List Action) : Prop :=
  ∀ action ∈ acts, ∃ line, action = .report line

@[simp] theorem codesOf_nil : codesOf [] = [] := rfl

@[simp] theorem codesOf_append (acts acts' : List Action) :
    codesOf (acts ++ acts') = codesOf acts ++ codesOf acts' :=
  List.filterMap_append

@[simp] theorem codesOf_cons_code (c : Code) (acts : List Action) :
    codesOf (.code c :: acts) = c :: codesOf acts := rfl

@[simp] theorem codesOf_map_code (code : List Code) : codesOf (code.map Action.code) = code := by
  induction code with
  | nil => rfl
  | cons c rest ih => rw [List.map_cons, codesOf_cons_code, ih]

@[simp] theorem codesOf_cons_openUnit (name : String) (acts : List Action) :
    codesOf (.openUnit name :: acts) = codesOf acts := rfl

@[simp] theorem codesOf_cons_closeUnit (acts : List Action) :
    codesOf (.closeUnit :: acts) = codesOf acts := rfl

/-- Actions of which every one that writes stands between the opening and the closing
    of a unit, where nothing but code and comments is written. -/
inductive Bracketed : List Action → Prop where
  | nil : Bracketed []
  | report {line : String} {rest : List Action} :
      Bracketed rest → Bracketed (.report line :: rest)
  | unit {name : String} {inside rest : List Action} :
      InUnit inside → Bracketed rest →
      Bracketed (.openUnit name :: (inside ++ .closeUnit :: rest))

theorem Bracketed.append {acts acts' : List Action} (h : Bracketed acts)
    (h' : Bracketed acts') : Bracketed (acts ++ acts') := by
  induction h with
  | nil => exact h'
  | report _ ih => exact .report ih
  | unit hinside _ ih => simpa using Bracketed.unit hinside ih

/-- Whatever is written besides code is a comment. -/
theorem Bracketed.comment_of_emission {acts : List Action} (h : Bracketed acts) {e : Emission}
    (he : .emission e ∈ acts) : ∃ t, e = .comment t := by
  induction h with
  | nil => simp at he
  | report _ ih => exact ih (by simpa using he)
  | unit hinside _ ih =>
      simp only [List.mem_cons, List.mem_append, reduceCtorEq, false_or] at he
      rcases he with he | he
      · rcases hinside _ he with (⟨c, hc⟩ | ⟨t, ht⟩) | ⟨line, hline⟩
        · cases hc
        · exact ⟨t, Action.emission.inj ht⟩
        · cases hline
      · exact ih he

theorem Reports.bracketed {acts : List Action} (h : Reports acts) : Bracketed acts := by
  induction acts with
  | nil => exact .nil
  | cons action rest ih =>
      obtain ⟨line, rfl⟩ := h action List.mem_cons_self
      exact .report (ih fun a ha => h a (List.mem_cons_of_mem _ ha))

theorem Reports.codesOf {acts : List Action} (h : Reports acts) : codesOf acts = [] := by
  rw [JasminGen.codesOf, List.filterMap_eq_nil_iff]
  intro action ha
  obtain ⟨line, rfl⟩ := h action ha
  rfl

theorem Writes.codesOf {acts : List Action} {code : List Code} (h : Writes acts code) :
    codesOf acts = code :=
  h.code

theorem Reports.inUnit {acts : List Action} (h : Reports acts) : InUnit acts :=
  fun action ha => .inr (h action ha)

theorem Writes.inUnit {acts : List Action} {code : List Code} (h : Writes acts code) :
    InUnit acts :=
  fun action ha => .inl (h.inBody action ha)

namespace Gen

variable {β : Type} {S : Setting} {f f' : Frame} {acts : List Action}

theorem emits_report_bind {word text name : String} {k : Unit → Gen β} {b : β}
    (h : Emits (report word text name >>= k) S f b acts f') :
    ∃ reports rest, acts = reports ++ rest ∧ Reports reports ∧ Emits (k ()) S f b rest f' := by
  rw [emits_bind] at h
  obtain ⟨_, reports, f₁, rest, hr, rfl, hk⟩ := h
  obtain ⟨rfl, hreports⟩ := emits_report hr
  exact ⟨reports, rest, rfl, hreports, hk⟩

theorem emits_openUnit_bind {kind : UnitKind} {name : String} {k : Unit → Gen β} {b : β}
    (h : Emits (openUnit kind name >>= k) S f b acts f') :
    ∃ reports rest, acts = .openUnit name :: (reports ++ rest) ∧ Reports reports ∧
      Emits (k ()) S f b rest f' := by
  rw [emits_bind] at h
  obtain ⟨_, first, f₁, rest, ho, rfl, hk⟩ := h
  rw [openUnit, emits_request_bind] at ho
  obtain ⟨reports, rfl, hr⟩ := ho
  obtain ⟨rfl, hreports⟩ := emits_report hr
  exact ⟨reports, rest, rfl, hreports, hk⟩

/-- A constructor starts with no slots in use. -/
theorem emits_beginConstructor {u : Unit} :
    Emits beginConstructor S f u acts f' ↔
      acts = .code (.methodHeader "public <init>()V") ::
          (Fragment.codeAll superParts).map Action.code ∧
        f' = ⟨f.entered, .empty, f.nextLabel⟩ := by
  have hslots : SlotTable.forMethod [] = .ok .empty := rfl
  simp only [beginConstructor, emits_beginMethod_bind, hslots, emits_code_bind, superCall,
    emits_instrs]
  constructor
  · rintro ⟨_, hs, _, rfl, rfl, rfl⟩
    cases hs
    exact ⟨by simp [superParts], rfl⟩
  · rintro ⟨rfl, rfl⟩
    exact ⟨_, rfl, _, rfl, by simp [superParts], rfl⟩

end Gen

-- ============================================================================
-- Structs
-- ============================================================================

section Lowering

variable {S : Setting}

theorem FieldDef.initial_lowered {field : FieldDef} {f f' : Frame} {u : Unit}
    {acts : List Action} (h : Emits field.initial S f u acts f') :
    ∃ p, InitialLowered S field f p f' ∧ GenuineAll S p ∧
      acts = (Fragment.codeAll p).map Action.code := by
  obtain ⟨name, ty, value⟩ := field
  cases value with
  | some e =>
      obtain ⟨p, hp, gp, rfl⟩ := e.lower_lowered h
      exact ⟨_, .value hp, by simp [Fragment.Genuine.expr h gp], by simp⟩
  | none =>
      by_cases hs : ∃ struct, ty = .struct struct
      · obtain ⟨struct, rfl⟩ := hs
        obtain ⟨rfl, rfl⟩ := emits_instr.mp h
        exact ⟨_, .null, by simp, by simp⟩
      · replace h : Emits (zeroValue ty) S f u acts f' := by
          cases ty with
          | struct name => exact absurd ⟨name, rfl⟩ hs
          | _ => exact h
        obtain ⟨is, hz, rfl, rfl⟩ := zeroCode_of_emits h
        refine ⟨_, .zero (fun struct hty => hs ⟨struct, hty⟩) hz, by simp, ?_⟩
        rw [Fragment.codeAll_map_instr, List.map_map]
        rfl

theorem StructDef.initFields_lowered {className : String} :
    ∀ (fields : List FieldDef) {f f' : Frame} {u : Unit} {acts : List Action},
      Emits (initFields className fields) S f u acts f' →
      ∃ p, FieldsLowered S className fields f p f' ∧ GenuineAll S p ∧
        acts = (Fragment.codeAll p).map Action.code
  | [], f, f', u, acts, h => by
      obtain ⟨-, rfl, rfl⟩ := emits_pure.mp h
      exact ⟨_, .nil, by simp, by simp⟩
  | field :: rest, f, f', u, acts, h => by
      rw [initFields, emits_instr_bind] at h
      obtain ⟨_, rfl, h⟩ := h
      rw [emits_bind] at h
      obtain ⟨_, _, f₁, _, hi, rfl, h⟩ := h
      rw [emits_instr_bind] at h
      obtain ⟨_, rfl, h⟩ := h
      obtain ⟨p, hp, gp, rfl⟩ := FieldDef.initial_lowered hi
      obtain ⟨ps, hps, gs, rfl⟩ := initFields_lowered rest h
      exact ⟨_, .cons hp hps, by simp [gp, gs], by simp⟩

/-- The directive that declares a field. -/
def FieldDef.declaration (field : FieldDef) : Code :=
  .field field.name field.ty

theorem consists_declarations (fields : List FieldDef) :
    Consists (fields.map FieldDef.declaration) [] := by
  induction fields with
  | nil => exact .nil
  | cons field rest ih => exact .field ih

theorem StructDef.declareFields_declares :
    ∀ (fields : List FieldDef) {f f' : Frame} {u : Unit} {acts : List Action},
      Emits (declareFields fields) S f u acts f' →
      f' = f ∧ codesOf acts = fields.map FieldDef.declaration ∧ InUnit acts
  | [], f, f', u, acts, h => by
      obtain ⟨-, rfl, rfl⟩ := emits_pure.mp h
      exact ⟨rfl, rfl, inUnit_nil⟩
  | field :: rest, f, f', u, acts, h => by
      rw [declareFields, emits_code_bind] at h
      obtain ⟨_, rfl, h⟩ := h
      obtain ⟨rfl, hrest, hunit⟩ := declareFields_declares rest h
      refine ⟨rfl, ?_, inUnit_cons_code.mpr hunit⟩
      rw [codesOf_cons_code, hrest]
      rfl

theorem InitialLowered.entered {field : FieldDef} {f f' : Frame} {p : List Fragment}
    (h : InitialLowered S field f p f') : f'.entered = f.entered := by
  cases h with
  | value he => exact he.entered
  | null => rfl
  | zero => rfl

theorem FieldsLowered.entered {className : String} {fields : List FieldDef} {f f' : Frame}
    {p : List Fragment} (h : FieldsLowered S className fields f p f') :
    f'.entered = f.entered := by
  induction h with
  | nil => rfl
  | cons hi _ ih => rw [ih, hi.entered]

/-- The code of a constructor. -/
theorem consists_constructor (p : List Fragment) :
    Consists (.methodHeader "public <init>()V" :: (Fragment.codeAll superParts ++
        (Fragment.codeAll p ++ [.instr .ret, .endMethod])))
      [LoweredMethod.code ⟨"public <init>()V", superParts ++ p ++ [.instr .ret]⟩] := by
  have hinner := Fragment.inner_codeAll (superParts ++ p ++ [.instr .ret])
  have h : Consists (.methodHeader "public <init>()V" :: (_ ++ [.endMethod])) _ :=
    .method hinner .nil
  simpa [LoweredMethod.code] using h

/-- What the unit of a struct is made of, whatever the frame it is lowered in. -/
structure StructActions (S : Setting) (s : StructDef) (f : Frame) (acts : List Action)
    (f' : Frame) where
  before : List Action
  inside : List Action
  id : ScopeId
  parts : List Fragment
  fieldsFrame : Frame
  acts_eq : acts = before ++ .openUnit s.name :: (inside ++ [.closeUnit])
  before_reports : Reports before
  inside_inUnit : InUnit inside
  unreserved : s.name ∉ reservedClasses
  scope : S.symbols.childScope? .struct s.name = some id
  fields_lowered :
    FieldsLowered S s.name s.fields ⟨id :: f.entered, .empty, f.nextLabel⟩ parts fieldsFrame
  fields_genuine : GenuineAll S parts
  entered : f'.entered = f.entered
  nextLabel : f'.nextLabel = fieldsFrame.nextLabel
  codes : codesOf acts = .classHeader s.name :: (s.fields.map FieldDef.declaration ++
    .methodHeader "public <init>()V" :: (Fragment.codeAll (superParts ++ parts ++ [.instr .ret]) ++
      [.endMethod]))

theorem StructDef.lower_actions {s : StructDef} {f f' : Frame} {u : Unit} {acts : List Action}
    (h : Emits s.lower S f u acts f') : Nonempty (StructActions S s f acts f') := by
  rw [StructDef.lower] at h
  replace h := emits_report_bind h
  obtain ⟨reports, _, rfl, hreports, h⟩ := h
  split at h
  · exact (emits_unsupported.mp h).elim
  next hname =>
    rw [emits_enterScope_bind] at h
    obtain ⟨id, hid, h⟩ := h
    replace h := emits_openUnit_bind h
    obtain ⟨reports', _, rfl, hreports', h⟩ := h
    rw [emits_code_bind] at h
    obtain ⟨_, rfl, h⟩ := h
    rw [emits_bind] at h
    obtain ⟨_, fieldActs, _, _, hd, rfl, h⟩ := h
    obtain ⟨rfl, hfields, hunit⟩ := declareFields_declares s.fields hd
    rw [emits_bind] at h
    obtain ⟨_, _, _, _, hb, rfl, h⟩ := h
    obtain ⟨rfl, rfl⟩ := emits_beginConstructor.mp hb
    rw [emits_bind] at h
    obtain ⟨_, _, f₁, _, hi, rfl, h⟩ := h
    obtain ⟨p, hp, gp, rfl⟩ := initFields_lowered s.fields hi
    simp only [emits_instr_bind, emits_code_bind, closeUnit, emits_request_bind,
      emits_leaveScope] at h
    obtain ⟨_, rfl, _, rfl, _, rfl, id', outer, hentered, rfl, rfl⟩ := h
    rw [hp.entered] at hentered
    obtain rfl : outer = f.entered := (List.cons.inj hentered).2.symm
    have hsuper := Writes.ofCode (Fragment.codeAll superParts)
    have hinit := Writes.ofCode (Fragment.codeAll p)
    refine ⟨⟨reports, reports' ++ .code (.classHeader s.name) :: (fieldActs ++
      .code (.methodHeader "public <init>()V") :: ((Fragment.codeAll superParts).map Action.code ++
        ((Fragment.codeAll p).map Action.code ++ [.instr .ret, .code .endMethod]))),
      id, p, f₁, by simp, hreports, ?_, hname, hid, hp, gp, rfl, rfl, ?_⟩⟩
    · simp [hreports'.inUnit, hunit, hsuper.inUnit, hinit.inUnit]
    · simp [hreports.codesOf, hreports'.codesOf, hfields, hsuper.codesOf, hinit.codesOf]

/-- A struct has one method, its constructor. -/
theorem StructDef.lower_method {s : StructDef} {f f' : Frame} {u : Unit} {acts : List Action}
    (hf : f.entered = []) (h : Emits s.lower S f u acts f') :
    ∃ m, MethodLowered S (.constructor s) f.nextLabel m f'.nextLabel ∧
      GenuineAll S m.parts ∧ f'.entered = [] ∧
      Consists (codesOf acts) [m.code] ∧ Bracketed acts := by
  obtain ⟨a⟩ := StructDef.lower_actions h
  have hfields := a.fields_lowered
  rw [hf] at hfields
  have hm : MethodLowered S (.constructor s) f.nextLabel _ a.fieldsFrame.nextLabel :=
    .constructor a.scope hfields
  rw [← a.nextLabel] at hm
  refine ⟨_, hm, by simp [superParts, a.fields_genuine], a.entered.trans hf, ?_, ?_⟩
  · rw [a.codes]
    exact .classHeader ((consists_declarations s.fields).append
      (.method (Fragment.inner_codeAll _) .nil))
  · rw [a.acts_eq]
    exact a.before_reports.bracketed.append (.unit a.inside_inUnit .nil)

-- ============================================================================
-- Functions, the entry class and programs
-- ============================================================================

/-- The code of a method's end: a function without result returns there. -/
def endParts (signature : Signature) : List Fragment :=
  if signature.result.isVoid then [.instr .ret] else []

@[simp] theorem genuineAll_endParts (signature : Signature) :
    GenuineAll S (endParts signature) := by
  unfold endParts
  split <;> simp

/-- What a function's method is made of, whatever the frame it is lowered in. -/
structure FunctionActions (S : Setting) (fn : FunctionDef) (f : Frame) (acts : List Action)
    (f' : Frame) where
  id : ScopeId
  signature : Signature
  slots : SlotTable
  parts : List Fragment
  bodyFrame : Frame
  scope : S.symbols.childScope? .function fn.name = some id
  lookup : S.symbols.lookupFunction id fn.name = .ok (some signature)
  slots_eq : SlotTable.forMethod (signature.params.map Binding.name) = .ok slots
  body_lowered :
    StmtLowered S (.many fn.body) ⟨id :: f.entered, slots, f.nextLabel⟩ parts bodyFrame
  body_genuine : GenuineAll S parts
  entered : f'.entered = f.entered
  nextLabel : f'.nextLabel = bodyFrame.nextLabel
  codes : codesOf acts = .methodHeader ("public " ++ fn.name ++ signature.descriptor) ::
    (Fragment.codeAll (parts ++ endParts signature) ++ [.endMethod])
  inUnit : InUnit acts

theorem FunctionDef.lower_actions {fn : FunctionDef} {f f' : Frame} {u : Unit}
    {acts : List Action} (h : Emits fn.lower S f u acts f') :
    Nonempty (FunctionActions S fn f acts f') := by
  rw [FunctionDef.lower] at h
  replace h := emits_report_bind h
  obtain ⟨reports, _, rfl, hreports, h⟩ := h
  rw [emits_enterScope_bind] at h
  obtain ⟨id, hid, h⟩ := h
  rw [emits_lookupFunction_bind] at h
  obtain ⟨found, hfound, h⟩ := h
  cases found with
  | none => exact (emits_fail.mp h).elim
  | some signature =>
      dsimp only at h
      rw [emits_beginMethod_bind] at h
      obtain ⟨slots, hslots, h⟩ := h
      rw [emits_code_bind] at h
      obtain ⟨_, rfl, h⟩ := h
      rw [emits_bind] at h
      obtain ⟨_, bodyActs, f₁, last, hb, rfl, h⟩ := h
      obtain ⟨p, hp, gp, hw⟩ := Stmt.lowerAll_lowered fn.body hb
      have hend : ∃ is : List Instr, is.map Fragment.instr = endParts signature ∧
          last = is.map Action.instr ++ [.code .endMethod] ∧
          ∃ id' outer, f₁.entered = id' :: outer ∧ f' = ⟨outer, f₁.slots, f₁.nextLabel⟩ := by
        cases hv : signature.result.isVoid with
        | true =>
            simp only [hv, if_true, emits_instr_bind, emits_code_bind, emits_leaveScope] at h
            obtain ⟨_, rfl, _, rfl, id', outer, he, rfl, hf'⟩ := h
            exact ⟨[.ret], by simp [endParts, hv], rfl, id', outer, he, hf'⟩
        | false =>
            simp only [hv, Bool.false_eq_true, if_false, emits_code_bind, emits_leaveScope] at h
            obtain ⟨_, rfl, id', outer, he, rfl, hf'⟩ := h
            exact ⟨[], by simp [endParts, hv], rfl, id', outer, he, hf'⟩
      obtain ⟨is, his, rfl, id', outer, hentered, rfl⟩ := hend
      rw [hp.entered] at hentered
      obtain rfl : outer = f.entered := (List.cons.inj hentered).2.symm
      refine ⟨⟨id, signature, slots, p, f₁, hid, hfound, hslots, hp, gp, rfl, rfl, ?_, ?_⟩⟩
      · rw [← his]
        simp [hreports.codesOf, hw.codesOf, (Writes.ofInstrs is).codesOf]
      · simp [hreports.inUnit, hw.inUnit, (Writes.ofInstrs is).inUnit]

/-- A function has one method, and its code stays inside of the open unit. -/
theorem FunctionDef.lower_method {fn : FunctionDef} {f f' : Frame} {u : Unit}
    {acts : List Action} (hf : f.entered = []) (h : Emits fn.lower S f u acts f') :
    ∃ m, MethodLowered S (.function fn) f.nextLabel m f'.nextLabel ∧
      GenuineAll S m.parts ∧ f'.entered = [] ∧ Consists (codesOf acts) [m.code] ∧
      InUnit acts := by
  obtain ⟨a⟩ := FunctionDef.lower_actions h
  have hbody := a.body_lowered
  rw [hf] at hbody
  have hm : MethodLowered S (.function fn) f.nextLabel
      ⟨_, a.parts ++ endParts a.signature⟩ a.bodyFrame.nextLabel :=
    .function a.scope a.lookup a.slots_eq hbody
  rw [← a.nextLabel] at hm
  refine ⟨_, hm, by simp [a.body_genuine], a.entered.trans hf, ?_, a.inUnit⟩
  rw [a.codes]
  exact .method (Fragment.inner_codeAll _) .nil

theorem FunctionDef.lowerAll_methods :
    ∀ (fns : List FunctionDef) {f f' : Frame} {u : Unit} {acts : List Action},
      f.entered = [] → Emits (FunctionDef.lowerAll fns) S f u acts f' →
      ∃ ms, MethodsLowered S (fns.map Origin.function) f.nextLabel ms f'.nextLabel ∧
        f'.entered = [] ∧ Consists (codesOf acts) (ms.map LoweredMethod.code) ∧ InUnit acts
  | [], f, f', u, acts, hf, h => by
      obtain ⟨-, rfl, rfl⟩ := emits_pure.mp h
      exact ⟨[], .nil, hf, .nil, inUnit_nil⟩
  | fn :: rest, f, f', u, acts, hf, h => by
      rw [FunctionDef.lowerAll, emits_bind] at h
      obtain ⟨_, _, f₁, _, hfn, rfl, h⟩ := h
      obtain ⟨m, hm, hg, hf₁, hcodes, hunit⟩ := FunctionDef.lower_method hf hfn
      obtain ⟨ms, hms, hf', hcodes', hunit'⟩ := lowerAll_methods rest hf₁ h
      refine ⟨m :: ms, .cons hm hg hms, hf', ?_, inUnit_append.mpr ⟨hunit, hunit'⟩⟩
      rw [codesOf_append]
      exact hcodes.append hcodes'

/-- The actions of the entry class: what comes before its unit, and what is written
    into it. -/
structure EntryActions (S : Setting) (body : List Stmt) (functions : List FunctionDef)
    (f : Frame) (acts : List Action) (f' : Frame) where
  before : List Action
  reports : List Action
  bodyActs : List Action
  functionActs : List Action
  id : ScopeId
  parts : List Fragment
  bodyFrame : Frame
  methods : List LoweredMethod
  inside : List Action
  inside_eq : inside = reports ++ .code (.classHeader entryClass) ::
    .code (.methodHeader "public static main([Ljava/lang/String;)V") :: .code .entryBody ::
    .code (.methodHeader "public <init>()V") ::
    ((Fragment.codeAll superParts).map Action.code ++ (bodyActs ++
      .instr .ret :: .code .endMethod :: functionActs))
  acts_eq : acts = before ++ .openUnit entryClass :: (inside ++ [.closeUnit])
  before_reports : Reports before
  reports_reports : Reports reports
  scope : S.symbols.childScope? .entry entryScopeName = some id
  body_lowered : StmtLowered S (.many body) ⟨[id], .empty, f.nextLabel⟩ parts bodyFrame
  body_genuine : GenuineAll S parts
  body_writes : Writes bodyActs (Fragment.codeAll parts)
  functions_lowered :
    MethodsLowered S (functions.map Origin.function) bodyFrame.nextLabel methods f'.nextLabel
  functions_consist : Consists (codesOf functionActs) (methods.map LoweredMethod.code)
  functions_inUnit : InUnit functionActs
  entered : f'.entered = []

/-- What the entry class emits, whatever the frame it is lowered in. -/
theorem lowerEntry_split {body : List Stmt} {functions : List FunctionDef} {f f' : Frame}
    {u : Unit} {acts : List Action} (h : Emits (lowerEntry body functions) S f u acts f') :
    ∃ before reports bodyActs functionActs id p bodyFrame,
      acts = before ++ .openUnit entryClass :: (reports ++ .code (.classHeader entryClass) ::
        .code (.methodHeader "public static main([Ljava/lang/String;)V") :: .code .entryBody ::
        .code (.methodHeader "public <init>()V") ::
        ((Fragment.codeAll superParts).map Action.code ++ (bodyActs ++
          .instr .ret :: .code .endMethod :: functionActs)) ++ [.closeUnit]) ∧
      Reports before ∧ Reports reports ∧
      S.symbols.childScope? .entry entryScopeName = some id ∧
      StmtLowered S (.many body) ⟨id :: f.entered, .empty, f.nextLabel⟩ p bodyFrame ∧
      GenuineAll S p ∧ Writes bodyActs (Fragment.codeAll p) ∧
      Emits (FunctionDef.lowerAll functions) S ⟨f.entered, bodyFrame.slots, bodyFrame.nextLabel⟩ ()
        functionActs f' := by
  rw [lowerEntry] at h
  replace h := emits_report_bind h
  obtain ⟨before, _, rfl, hbefore, h⟩ := h
  replace h := emits_openUnit_bind h
  obtain ⟨reports, _, rfl, hreports, h⟩ := h
  simp only [emits_code_bind, emits_enterScope_bind] at h
  obtain ⟨_, rfl, _, rfl, _, rfl, id, hid, h⟩ := h
  rw [emits_bind] at h
  obtain ⟨_, _, _, _, hb, rfl, h⟩ := h
  obtain ⟨rfl, rfl⟩ := emits_beginConstructor.mp hb
  rw [emits_bind] at h
  obtain ⟨_, bodyActs, f₁, _, hbody, rfl, h⟩ := h
  obtain ⟨p, hp, gp, hw⟩ := Stmt.lowerAll_lowered body hbody
  simp only [emits_instr_bind, emits_code_bind, emits_leaveScope_bind] at h
  obtain ⟨_, rfl, _, rfl, id', outer, hentered, h⟩ := h
  rw [hp.entered] at hentered
  obtain rfl : outer = f.entered := (List.cons.inj hentered).2.symm
  rw [emits_bind] at h
  obtain ⟨_, functionActs, f₂, _, hfunctions, rfl, h⟩ := h
  obtain ⟨rfl, rfl⟩ := emits_request.mp h
  exact ⟨before, reports, bodyActs, functionActs, id, p, f₁, by simp, hbefore, hreports, hid, hp,
    gp, hw, hfunctions⟩

theorem lowerEntry_actions {body : List Stmt} {functions : List FunctionDef} {f f' : Frame}
    {u : Unit} {acts : List Action} (hf : f.entered = [])
    (h : Emits (lowerEntry body functions) S f u acts f') :
    Nonempty (EntryActions S body functions f acts f') := by
  obtain ⟨before, reports, bodyActs, functionActs, id, p, f₁, hacts, hbefore, hreports, hid, hp,
    gp, hw, hfunctions⟩ := lowerEntry_split h
  rw [hf] at hp hfunctions
  obtain ⟨ms, hms, hf', hcodes, hunit⟩ := FunctionDef.lowerAll_methods functions rfl hfunctions
  exact ⟨⟨before, reports, bodyActs, functionActs, id, p, f₁, ms, _, rfl, hacts, hbefore,
    hreports, hid, hp, gp, hw, hms, hcodes, hunit, hf'⟩⟩

theorem EntryActions.inside_inUnit {body : List Stmt} {functions : List FunctionDef}
    {f f' : Frame} {acts : List Action} (e : EntryActions S body functions f acts f') :
    InUnit e.inside := by
  have hsuper := Writes.ofCode (Fragment.codeAll superParts)
  simp [e.inside_eq, e.reports_reports.inUnit, e.body_writes.inUnit, hsuper.inUnit,
    e.functions_inUnit]

/-- The methods of the entry class: the static entry, the constructor and those of the
    functions. -/
theorem EntryActions.lowered {body : List Stmt} {functions : List FunctionDef} {f f' : Frame}
    {acts : List Action} (e : EntryActions S body functions f acts f') :
    ∃ ms, MethodsLowered S (.entry :: .body body :: functions.map Origin.function) f.nextLabel ms
        f'.nextLabel ∧ Consists (codesOf acts) (ms.map LoweredMethod.code) ∧
      Bracketed acts := by
  have hsuper := Writes.ofCode (Fragment.codeAll superParts)
  have hbody : MethodLowered S (.body body) f.nextLabel _ e.bodyFrame.nextLabel :=
    .body e.scope e.body_lowered
  refine ⟨_, .cons .entry (by simp) (.cons hbody (by simp [superParts, e.body_genuine])
    e.functions_lowered), ?_, ?_⟩
  · rw [congrArg codesOf e.acts_eq]
    have hcodes : Consists (.classHeader entryClass ::
        .methodHeader "public static main([Ljava/lang/String;)V" :: .entryBody :: _) _ :=
      .classHeader (.entry ((consists_constructor e.parts).append e.functions_consist))
    simpa [e.inside_eq, e.before_reports.codesOf, e.reports_reports.codesOf,
      e.body_writes.codesOf, hsuper.codesOf, LoweredMethod.code] using hcodes
  · rw [congrArg Bracketed e.acts_eq]
    exact e.before_reports.bracketed.append (.unit e.inside_inUnit .nil)

theorem Program.lowerStructs_methods :
    ∀ (structs : List StructDef) {f f' : Frame} {u : Unit} {acts : List Action},
      f.entered = [] → Emits (lowerStructs structs) S f u acts f' →
      ∃ ms, MethodsLowered S (structs.map Origin.constructor) f.nextLabel ms f'.nextLabel ∧
        f'.entered = [] ∧ Consists (codesOf acts) (ms.map LoweredMethod.code) ∧
        Bracketed acts
  | [], f, f', u, acts, hf, h => by
      obtain ⟨-, rfl, rfl⟩ := emits_pure.mp h
      exact ⟨[], .nil, hf, .nil, .nil⟩
  | s :: rest, f, f', u, acts, hf, h => by
      rw [lowerStructs, emits_bind] at h
      obtain ⟨_, _, f₁, _, hs, rfl, h⟩ := h
      obtain ⟨m, hm, hg, hf₁, hcodes, hunits⟩ := StructDef.lower_method hf hs
      obtain ⟨ms, hms, hf', hcodes', hunits'⟩ := lowerStructs_methods rest hf₁ h
      refine ⟨m :: ms, .cons hm hg hms, hf', ?_, hunits.append hunits'⟩
      rw [codesOf_append]
      exact hcodes.append hcodes'

/-- A program is lowered struct by struct, and then its entry class. -/
theorem Program.lower_entry {program : Program} {f' : Frame} {u : Unit} {acts : List Action}
    (h : Emits program.lower S .initial u acts f') :
    ∃ structActs entryActs f₁ ms, acts = structActs ++ entryActs ∧
      MethodsLowered S (program.structs.map Origin.constructor) ⟨0⟩ ms f₁.nextLabel ∧
      Consists (codesOf structActs) (ms.map LoweredMethod.code) ∧ Bracketed structActs ∧
      Nonempty (EntryActions S program.body program.functions f₁ entryActs f') := by
  rw [Program.lower, emits_bind] at h
  obtain ⟨_, structActs, f₁, entryActs, hs, rfl, h⟩ := h
  obtain ⟨ms, hms, hf₁, hcodes, hunits⟩ := lowerStructs_methods program.structs rfl hs
  exact ⟨structActs, entryActs, f₁, ms, rfl, hms, hcodes, hunits, lowerEntry_actions hf₁ h⟩

/-- A program that is lowered has the methods of its parts and no code outside of
    them. -/
theorem Program.lower_methods {program : Program} {f' : Frame} {u : Unit} {acts : List Action}
    (h : Emits program.lower S .initial u acts f') :
    ∃ ms, MethodsLowered S program.origins ⟨0⟩ ms f'.nextLabel ∧
      Consists (codesOf acts) (ms.map LoweredMethod.code) ∧ Bracketed acts := by
  obtain ⟨structActs, entryActs, f₁, ms, rfl, hms, hcodes, hunits, ⟨e⟩⟩ := lower_entry h
  obtain ⟨ms', hms', hcodes', hunits'⟩ := e.lowered
  refine ⟨ms ++ ms', hms.append hms', ?_, hunits.append hunits'⟩
  rw [codesOf_append, List.map_append]
  exact hcodes.append hcodes'

end Lowering

-- ============================================================================
-- Runs
-- ============================================================================

/-- What a run on a program asks of the output. -/
def Program.actions (program : Program) (setting : Setting) : List Action :=
  (program.lower setting .initial).requests.map Request.action

/-- The code that a run on a program writes, over all units. -/
def Program.codes (program : Program) (setting : Setting) : List Code :=
  codesOf (program.actions setting)

/-- A run that succeeds has lowered the whole program. -/
theorem generate_emits {σ ω : Type} [Sink σ ω] {setting : Setting} {program : Program} {sink : σ}
    (h : (generate setting program sink).1 = .ok ()) :
    Emits program.lower setting .initial () (program.actions setting)
      (generate setting program sink).2.frame := by
  rcases Session.run_frame program.propagates_lower setting (Session.start sink) with
    ⟨hresult, hframe⟩ | ⟨r, -, reason, herror, -⟩
  · exact ⟨hresult.symm.trans h, rfl, hframe.symm⟩
  · cases herror.symm.trans h

end JasminGen
