/-
  JasminGen.Proofs.Lowering.Rewriting

  Lowering two programs that differ in their expressions, in two settings. A rewriting
  replaces expressions by others that are lowered in the same way and have the same types.
  Targets of assignments are kept, since only names can be assigned to. If what the
  program shows of itself, in comments and in errors, is the same in both settings, then
  lowering gives the same from every frame, up to requests that are hidden from view.

  Main definitions: `Program.mapExprs`, `Program.names`, `Rewriting`, `Gen.SameUpTo`. Main
  results: `Rewriting.lower_expr`, `Rewriting.lower_stmt`, `Rewriting.lower_program`.
-/

import JasminGen.Codegen.Program

namespace JasminGen

open Gen

-- ============================================================================
-- Expressions of a program
-- ============================================================================

mutual

/-- Change every expression of a statement but the targets of assignments. -/
def Stmt.mapExprs (φ : Expr → Expr) : Stmt → Stmt
  | .block body => .block (Stmt.mapExprsAll φ body)
  | .declare name ty value => .declare name ty (value.map φ)
  | .assign target value => .assign target (φ value)
  | .cond test positive none => .cond (φ test) (positive.mapExprs φ) none
  | .cond test positive (some negative) =>
    .cond (φ test) (positive.mapExprs φ) (some (negative.mapExprs φ))
  | .loop count body => .loop (φ count) (body.mapExprs φ)
  | .call target args => .call (φ target) (args.map φ)
  | .ret value => .ret (value.map φ)
  | .display value => .display (φ value)
  | .append list element => .append (φ list) (φ element)
  | .size list => .size (φ list)

def Stmt.mapExprsAll (φ : Expr → Expr) : List Stmt → List Stmt
  | [] => []
  | s :: rest => s.mapExprs φ :: Stmt.mapExprsAll φ rest

end

def FieldDef.mapExprs (φ : Expr → Expr) (field : FieldDef) : FieldDef :=
  ⟨field.name, field.ty, field.value.map φ⟩

def StructDef.mapExprs (φ : Expr → Expr) (s : StructDef) : StructDef :=
  ⟨s.name, s.fields.map (FieldDef.mapExprs φ)⟩

def FunctionDef.mapExprs (φ : Expr → Expr) (f : FunctionDef) : FunctionDef :=
  ⟨f.name, f.params, f.result, Stmt.mapExprsAll φ f.body⟩

/-- Change every expression of a program but the targets of assignments. -/
def Program.mapExprs (φ : Expr → Expr) (program : Program) : Program where
  structs := program.structs.map (StructDef.mapExprs φ)
  body := Stmt.mapExprsAll φ program.body
  functions := program.functions.map (FunctionDef.mapExprs φ)

-- ============================================================================
-- Names of a program
-- ============================================================================

mutual

/-- The names of structs in a type. -/
def Ty.names : Ty → List String
  | .int | .bool | .void => []
  | .struct name => [name]
  | .list element => element.names
  | .fptr params result => Ty.namesAll params ++ result.names

def Ty.namesAll : List Ty → List String
  | [] => []
  | ty :: rest => ty.names ++ Ty.namesAll rest

end

mutual

/-- The names in an expression. -/
def Expr.names : Expr → List String
  | .int _ | .bool _ => []
  | .ident name => [name]
  | .group e | .unary _ e | .size e => e.names
  | .binary _ l r | .index l r | .append l r => l.names ++ r.names
  | .call target args => target.names ++ Expr.namesAll args
  | .field e name => e.names ++ [name]

def Expr.namesAll : List Expr → List String
  | [] => []
  | e :: rest => e.names ++ Expr.namesAll rest

end

mutual

/-- The names in a statement. -/
def Stmt.names : Stmt → List String
  | .block body => Stmt.namesAll body
  | .declare name ty none => name :: ty.names
  | .declare name ty (some e) => name :: (ty.names ++ e.names)
  | .assign l r | .append l r => l.names ++ r.names
  | .cond test positive none => test.names ++ positive.names
  | .cond test positive (some negative) => test.names ++ positive.names ++ negative.names
  | .loop count body => count.names ++ body.names
  | .call target args => target.names ++ Expr.namesAll args
  | .ret none => []
  | .ret (some e) | .display e | .size e => e.names

def Stmt.namesAll : List Stmt → List String
  | [] => []
  | s :: rest => s.names ++ Stmt.namesAll rest

end

def Binding.names (b : Binding) : List String :=
  b.name :: b.ty.names

def FieldDef.names (field : FieldDef) : List String :=
  field.name :: (field.ty.names ++ (field.value.map Expr.names).getD [])

def StructDef.names (s : StructDef) : List String :=
  s.name :: s.fields.flatMap FieldDef.names

def FunctionDef.names (f : FunctionDef) : List String :=
  f.name :: (f.params.flatMap Binding.names ++ f.result.names ++ Stmt.namesAll f.body)

/-- All names in a program. -/
def Program.names (program : Program) : List String :=
  program.structs.flatMap StructDef.names ++ Stmt.namesAll program.body ++
    program.functions.flatMap FunctionDef.names

-- ============================================================================
-- Rewritings
-- ============================================================================

/-- `Rewriting φ clean S S'`: expressions that are changed by `φ` are lowered in `S'` as
    they are in `S` without the change, and have the same types. Sources in which all names
    are `clean` show the same of themselves. -/
structure Rewriting (φ : Expr → Expr) (clean : String → Prop) (S S' : Setting) : Prop where
  symbols : S'.symbols = S.symbols
  oracle : ∀ id e, S'.oracle id (φ e) = S.oracle id e
  int : ∀ n, φ (.int n) = .int n
  bool : ∀ b, φ (.bool b) = .bool b
  ident : ∀ name, φ (.ident name) = .ident name
  group : ∀ e, (φ (.group e)).lower = (φ e).lower
  binary : ∀ op l r, φ (.binary op l r) = .binary op (φ l) (φ r)
  unary : ∀ op e, φ (.unary op e) = .unary op (φ e)
  index : ∀ l r, φ (.index l r) = .index (φ l) (φ r)
  append : ∀ l r, φ (.append l r) = .append (φ l) (φ r)
  size : ∀ e, φ (.size e) = .size (φ e)
  call : ∀ target args, φ (.call target args) = .call (φ target) (args.map φ)
  field : ∀ e name, φ (.field e name) = .field (φ e) name
  comment : ∀ s : Stmt, (∀ name ∈ s.names, clean name) →
    (s.mapExprs φ).comment S' = s.comment S
  target : ∀ e : Expr, (∀ name ∈ e.names, clean name) →
    S'.options.strip (e.render S'.options.colored) = S.options.strip (e.render S.options.colored)

theorem Gen.bind_congr {α β : Type} {m m' : Gen α} {k k' : α → Gen β} {S S' : Setting}
    (hm : m' S' = m S) (hk : ∀ a, k' a S' = k a S) : (m' >>= k') S' = (m >>= k) S := by
  funext f
  show Gen.bind m' k' S' f = Gen.bind m k S f
  simp only [Gen.bind, hm, hk]

namespace Gen

/-! What depends on the symbol table of a setting alone. -/

variable {S S' : Setting}

theorem ofExcept_congr {α : Type} (x : Except Failure α) : ofExcept x S' = ofExcept x S := by
  cases x <;> rfl

theorem setting_bind {α : Type} (k : Setting → Gen α) : (setting >>= k) S = k S S := rfl

/-- A question about the active scope. -/
theorem ask_congr {α : Type} {answer answer' : Setting → ScopeId → Except Failure α}
    (h : ∀ id, answer' S' id = answer S id) :
    (do let s ← setting; ofExcept (answer' s (← activeScope)) : Gen α) S' =
      (do let s ← setting; ofExcept (answer s (← activeScope)) : Gen α) S := by
  rw [setting_bind, setting_bind]
  refine bind_congr rfl fun id => ?_
  rw [h]
  exact ofExcept_congr _

theorem lookupFunction_congr (h : S'.symbols = S.symbols) (name : String) :
    lookupFunction name S' = lookupFunction name S :=
  ask_congr fun id => by rw [h]

theorem lookupStruct_congr (h : S'.symbols = S.symbols) (name : String) :
    lookupStruct name S' = lookupStruct name S :=
  ask_congr fun id => by rw [h]

theorem scope_congr (h : S'.symbols = S.symbols) : scope S' = scope S :=
  ask_congr fun id => by rw [h]

theorem takeSlot_congr (take : SlotTable → Except Fault (Nat × SlotTable)) :
    takeSlot take S' = takeSlot take S :=
  bind_congr rfl fun _ => bind_congr (ofExcept_congr _) fun _ => rfl

theorem slotOf_congr (h : S'.symbols = S.symbols) (name : String) :
    slotOf name S' = slotOf name S := by
  refine bind_congr rfl fun f => ?_
  cases f.slots.get? name with
  | some slot => rfl
  | none =>
      refine bind_congr (scope_congr h) fun s => ?_
      cases s.find? name with
      | none => cases s.kind <;> rfl
      | some ty =>
          cases s.kind with
          | function | entry => exact takeSlot_congr _
          | _ => rfl

theorem zeroValue_congr (h : S'.symbols = S.symbols) (ty : Ty) :
    zeroValue ty S' = zeroValue ty S := by
  cases ty with
  | struct name =>
      refine bind_congr (lookupStruct_congr h name) fun found => ?_
      cases found <;> rfl
  | _ => rfl

theorem beginMethod_congr (params : List String) : beginMethod params S' = beginMethod params S :=
  bind_congr (ofExcept_congr _) fun _ => rfl

end Gen

namespace Rewriting

variable {φ : Expr → Expr} {clean : String → Prop} {S S' : Setting}

-- ============================================================================
-- Expressions
-- ============================================================================

theorem typeOf (h : Rewriting φ clean S S') (e : Expr) : typeOf (φ e) S' = typeOf e S :=
  ask_congr fun id => h.oracle id e

theorem lowerName (h : Rewriting φ clean S S') (name : String) :
    Expr.lowerName name S' = Expr.lowerName name S := by
  refine bind_congr (lookupFunction_congr h.symbols name) fun found => ?_
  cases found with
  | none => exact bind_congr (slotOf_congr h.symbols name) fun _ => rfl
  | some _ =>
      refine bind_congr (scope_congr h.symbols) fun s => ?_
      cases s.kind <;> rfl

theorem callResult (h : Rewriting φ clean S S') (target : Expr) :
    Expr.callResult (φ target) S' = Expr.callResult target S := by
  refine bind_congr (h.typeOf target) fun ty => ?_
  cases ty <;> rfl

theorem narrowResult (result : Ty) :
    Expr.narrowResult result S' = Expr.narrowResult result S := by
  unfold Expr.narrowResult
  cases result.className? <;> rfl

mutual

/-- A rewritten expression is lowered as it was. -/
theorem lower_expr (h : Rewriting φ clean S S') : ∀ e : Expr, (φ e).lower S' = e.lower S
  | .int n => by
      rw [h.int]
      rfl
  | .bool b => by
      rw [h.bool]
      rfl
  | .ident name => by
      rw [h.ident]
      exact h.lowerName name
  | .group e => by
      rw [h.group]
      exact lower_expr h e
  | .binary (.arith _) l r | .binary (.order _) l r => by
      rw [h.binary]
      exact bind_congr (lower_expr h l) fun _ => bind_congr rfl fun _ =>
        bind_congr (lower_expr h r) fun _ => rfl
  | .binary (.logic op) l r => by
      rw [h.binary]
      exact bind_congr rfl fun _ => bind_congr rfl fun _ => bind_congr (lower_expr h l) fun _ =>
        bind_congr rfl fun _ => bind_congr rfl fun _ => bind_congr (lower_expr h r) fun _ => rfl
  | .binary .equal l r => by
      rw [h.binary]
      refine bind_congr (h.typeOf l) fun ty => ?_
      cases ty with
      | int | bool =>
          exact bind_congr (lower_expr h l) fun _ => bind_congr rfl fun _ =>
            bind_congr (lower_expr h r) fun _ => rfl
      | list | fptr =>
          exact bind_congr (lower_expr h l) fun _ => bind_congr (lower_expr h r) fun _ => rfl
      | _ => rfl
  | .unary .not e | .unary .neg e => by
      rw [h.unary]
      exact bind_congr (lower_expr h e) fun _ => rfl
  | .index l r => by
      have htype : Gen.typeOf (.index (φ l) (φ r)) S' = Gen.typeOf (.index l r) S := by
        rw [← h.index]
        exact h.typeOf _
      rw [h.index]
      refine bind_congr htype fun ty => ?_
      cases ty.className? with
      | none => rfl
      | some name =>
          exact bind_congr (lower_expr h l) fun _ => bind_congr (lower_expr h r) fun _ => rfl
  | .append l r => by
      rw [h.append]
      exact bind_congr (lower_expr h l) fun _ => bind_congr rfl fun _ =>
        bind_congr (lower_expr h r) fun _ => rfl
  | .size e => by
      rw [h.size]
      exact bind_congr (lower_expr h e) fun _ => rfl
  | .call target args => by
      rw [h.call]
      exact bind_congr (h.callResult target) fun _ => bind_congr (lower_expr h target) fun _ =>
        bind_congr rfl fun _ => bind_congr (lower_args h args) fun _ =>
          bind_congr rfl fun _ => narrowResult _
  | .field e name => by
      rw [h.field]
      rfl

theorem lower_args (h : Rewriting φ clean S S') :
    ∀ args : List Expr, Expr.lowerArgs (args.map φ) S' = Expr.lowerArgs args S
  | [] => rfl
  | arg :: rest => by
      refine bind_congr rfl fun _ => bind_congr (h.typeOf arg) fun ty => ?_
      cases ty with
      | list element =>
          exact bind_congr rfl fun _ => bind_congr (lower_expr h arg) fun _ =>
            bind_congr rfl fun _ => bind_congr rfl fun _ => bind_congr rfl fun _ =>
              lower_args h rest
      | _ =>
          exact bind_congr (lower_expr h arg) fun _ => bind_congr rfl fun _ =>
            bind_congr rfl fun _ => lower_args h rest

end

-- ============================================================================
-- Statements
-- ============================================================================

theorem store (h : Rewriting φ clean S S') (name : String) :
    Stmt.store name S' = Stmt.store name S :=
  bind_congr (slotOf_congr h.symbols name) fun _ => rfl

theorem dropResult (ty : Ty) : Stmt.dropResult ty S' = Stmt.dropResult ty S := by
  unfold Stmt.dropResult
  split <;> rfl

theorem lowerDisplay (h : Rewriting φ clean S S') (value : Expr) :
    Stmt.lowerDisplay (φ value) S' = Stmt.lowerDisplay value S := by
  refine bind_congr (h.typeOf value) fun ty => ?_
  cases ty with
  | int | bool =>
      exact bind_congr rfl fun _ => bind_congr (h.lower_expr value) fun _ => rfl
  | _ => rfl

/-- The target of an assignment is shown only if it is not a name. -/
theorem lowerAssign (h : Rewriting φ clean S S') (value : Expr) {target : Expr}
    (hnames : ∀ name ∈ target.names, clean name) :
    Stmt.lowerAssign (φ value) target S' = Stmt.lowerAssign value target S := by
  have hother : (unsupported (.assignment (S'.options.strip (target.render S'.options.colored))) :
      Gen Unit) S' = (unsupported (.assignment
        (S.options.strip (target.render S.options.colored))) : Gen Unit) S := by
    rw [h.target target hnames]
    rfl
  cases target with
  | ident name => exact bind_congr (h.lower_expr value) fun _ => h.store name
  | _ => exact hother

mutual

/-- A rewritten statement is lowered as it was. -/
theorem lower_stmt (h : Rewriting φ clean S S') : ∀ s : Stmt, (∀ name ∈ s.names, clean name) →
    (s.mapExprs φ).lower S' = s.lower S
  | .block body, hnames => lower_stmts h body hnames
  | .declare name ty none, hnames =>
      bind_congr (h.comment (.declare name ty none) hnames) fun _ =>
        bind_congr (zeroValue_congr h.symbols ty) fun _ => h.store name
  | .declare name ty (some e), hnames =>
      bind_congr (h.comment (.declare name ty (some e)) hnames) fun _ =>
        bind_congr (h.lower_expr e) fun _ => h.store name
  | .assign target value, hnames =>
      bind_congr (h.comment (.assign target value) hnames) fun _ =>
        h.lowerAssign value fun name hname => hnames name (List.mem_append_left _ hname)
  | .cond test positive none, hnames => by
      have hpositive := lower_stmt h positive fun name hname =>
        hnames name (List.mem_append_right _ hname)
      exact bind_congr (h.comment (.cond test positive none) hnames) fun _ =>
        bind_congr rfl fun _ => bind_congr rfl fun _ => bind_congr (h.lower_expr test) fun _ =>
          bind_congr rfl fun _ => bind_congr rfl fun _ => bind_congr hpositive fun _ => rfl
  | .cond test positive (some negative), hnames => by
      have hpositive := lower_stmt h positive fun name hname =>
        hnames name (List.mem_append_left _ (List.mem_append_right _ hname))
      have hnegative := lower_stmt h negative fun name hname =>
        hnames name (List.mem_append_right _ hname)
      exact bind_congr (h.comment (.cond test positive (some negative)) hnames) fun _ =>
        bind_congr rfl fun _ => bind_congr rfl fun _ => bind_congr (h.lower_expr test) fun _ =>
          bind_congr rfl fun _ => bind_congr rfl fun _ => bind_congr hpositive fun _ =>
            bind_congr rfl fun _ => bind_congr rfl fun _ => bind_congr rfl fun _ =>
              bind_congr hnegative fun _ => rfl
  | .loop count body, hnames => by
      have hbody := lower_stmt h body fun name hname =>
        hnames name (List.mem_append_right _ hname)
      exact bind_congr (h.comment (.loop count body) hnames) fun _ =>
        bind_congr (takeSlot_congr _) fun _ => bind_congr rfl fun _ => bind_congr rfl fun _ =>
          bind_congr (h.lower_expr count) fun _ => bind_congr rfl fun _ => bind_congr rfl fun _ =>
            bind_congr rfl fun _ => bind_congr rfl fun _ => bind_congr hbody fun _ => rfl
  | .call target args, hnames => by
      have hcall := h.lower_expr (.call target args)
      rw [h.call] at hcall
      exact bind_congr (h.comment (.call target args) hnames) fun _ =>
        bind_congr (h.typeOf target) fun ty => bind_congr hcall fun _ => dropResult ty
  | .ret none, hnames => bind_congr (h.comment (.ret none) hnames) fun _ => rfl
  | .ret (some value), hnames => by
      refine bind_congr (h.comment (.ret (some value)) hnames) fun _ =>
        bind_congr (h.typeOf value) fun ty => bind_congr (h.lower_expr value) fun _ => ?_
      cases ty.isVoid <;> rfl
  | .display value, hnames =>
      bind_congr (h.comment (.display value) hnames) fun _ => h.lowerDisplay value
  | .append list element, hnames => by
      have happend := h.lower_expr (.append list element)
      rw [h.append] at happend
      exact bind_congr (h.comment (.append list element) hnames) fun _ =>
        bind_congr happend fun _ => rfl
  | .size list, hnames => by
      have hsize := h.lower_expr (.size list)
      rw [h.size] at hsize
      exact bind_congr (h.comment (.size list) hnames) fun _ => bind_congr hsize fun _ => rfl

theorem lower_stmts (h : Rewriting φ clean S S') :
    ∀ ss : List Stmt, (∀ name ∈ Stmt.namesAll ss, clean name) →
      Stmt.lowerAll (Stmt.mapExprsAll φ ss) S' = Stmt.lowerAll ss S
  | [], _ => rfl
  | s :: rest, hnames =>
      bind_congr (lower_stmt h s fun name hname => hnames name (List.mem_append_left _ hname))
        fun _ => lower_stmts h rest fun name hname => hnames name (List.mem_append_right _ hname)

end

end Rewriting

-- ============================================================================
-- Outcomes up to hidden requests
-- ============================================================================

/-- Outcomes that differ at most in requests for hidden actions. -/
structure Outcome.SameUpTo {α : Type} (hidden : Action → Bool) (o o' : Outcome α) : Prop where
  result : o'.result = o.result
  frame : o'.frame = o.frame
  requests : o'.requests.filter (fun r => !hidden r.action) =
    o.requests.filter fun r => !hidden r.action

/-- The two computations have such outcomes from every frame, one in each setting. -/
def Gen.SameUpTo {α : Type} (hidden : Action → Bool) (S S' : Setting) (m m' : Gen α) : Prop :=
  ∀ f, (m S f).outcome.SameUpTo hidden (m' S' f).outcome

namespace Gen.SameUpTo

variable {α β : Type} {hidden : Action → Bool} {S S' : Setting}

theorem of_eq {m m' : Gen α} (h : m' S' = m S) : SameUpTo hidden S S' m m' := by
  intro f
  rw [h]
  exact ⟨rfl, rfl, rfl⟩

theorem bind {m m' : Gen α} {k k' : α → Gen β} (hm : SameUpTo hidden S S' m m')
    (hk : ∀ a, SameUpTo hidden S S' (k a) (k' a)) :
    SameUpTo hidden S S' (m >>= k) (m' >>= k') := by
  intro f
  obtain ⟨hresult, hframe, hrequests⟩ := hm f
  have hsame : (m' S' f).frame = (m S f).frame := hframe
  cases hm : (m S f).result with
  | error failure =>
      rw [bind_error hm, bind_error (hresult.trans hm)]
      exact ⟨rfl, hframe, hrequests⟩
  | ok a =>
      rw [bind_ok hm, bind_ok (hresult.trans hm), hsame]
      obtain ⟨hresult', hframe', hrequests'⟩ := hk a (m S f).frame
      refine ⟨hresult', hframe', ?_⟩
      rw [List.filter_append, List.filter_append, hrequests, hrequests']

end Gen.SameUpTo

-- ============================================================================
-- Definitions and programs
-- ============================================================================

namespace Rewriting

variable {φ : Expr → Expr} {clean : String → Prop} {S S' : Setting} {hidden : Action → Bool}

theorem initial (h : Rewriting φ clean S S') (field : FieldDef) :
    (field.mapExprs φ).initial S' = field.initial S := by
  obtain ⟨name, ty, value⟩ := field
  cases value with
  | some e => exact h.lower_expr e
  | none => cases ty <;> rfl

theorem initFields (h : Rewriting φ clean S S') (className : String) :
    ∀ fields : List FieldDef, StructDef.initFields className (fields.map (FieldDef.mapExprs φ)) S' =
      StructDef.initFields className fields S
  | [] => rfl
  | field :: rest =>
      bind_congr rfl fun _ => bind_congr (h.initial field) fun _ => bind_congr rfl fun _ =>
        initFields h className rest

theorem declareFields (φ : Expr → Expr) :
    ∀ fields : List FieldDef, StructDef.declareFields (fields.map (FieldDef.mapExprs φ)) S' =
      StructDef.declareFields fields S
  | [] => rfl
  | _ :: rest => bind_congr rfl fun _ => declareFields φ rest

theorem beginConstructor : beginConstructor S' = beginConstructor S :=
  bind_congr (beginMethod_congr []) fun _ => rfl

theorem enterScope (h : Rewriting φ clean S S') (kind : ScopeKind) (name : String) :
    enterScope kind name S' = enterScope kind name S := by
  refine bind_congr rfl fun f => ?_
  rw [setting_bind, setting_bind, h.symbols]
  cases S.symbols.childScope? kind name <;> rfl

theorem leaveScope : leaveScope S' = leaveScope S :=
  bind_congr rfl fun f => by cases f.entered <;> rfl

section Reports

variable (hreport : ∀ word text name, SameUpTo hidden S S' (report word text name)
  (report word text name))

include hreport

theorem openUnit (kind : UnitKind) (name : String) :
    SameUpTo hidden S S' (openUnit kind name) (openUnit kind name) :=
  .bind (.of_eq rfl) fun _ => hreport _ _ _

theorem lower_struct (h : Rewriting φ clean S S') (s : StructDef) :
    SameUpTo hidden S S' s.lower (s.mapExprs φ).lower := by
  refine .bind (hreport _ _ _) fun _ => ?_
  show SameUpTo hidden S S' (if s.name ∈ reservedClasses then _ else _)
    (if s.name ∈ reservedClasses then _ else _)
  split
  · exact .of_eq rfl
  · refine .bind (.of_eq (h.enterScope _ _)) fun _ => .bind (openUnit hreport _ _) fun _ =>
      .of_eq (bind_congr rfl fun _ => ?_)
    exact bind_congr (declareFields φ s.fields) fun _ => bind_congr beginConstructor fun _ =>
      bind_congr (h.initFields s.name s.fields) fun _ => bind_congr rfl fun _ =>
        bind_congr rfl fun _ => bind_congr rfl fun _ => leaveScope

theorem lower_structs (h : Rewriting φ clean S S') :
    ∀ structs : List StructDef, SameUpTo hidden S S' (Program.lowerStructs structs)
      (Program.lowerStructs (structs.map (StructDef.mapExprs φ)))
  | [] => .of_eq rfl
  | s :: rest => .bind (lower_struct hreport h s) fun _ => lower_structs h rest

theorem lower_function (h : Rewriting φ clean S S') (f : FunctionDef)
    (hnames : ∀ name ∈ Stmt.namesAll f.body, clean name) :
    SameUpTo hidden S S' f.lower (f.mapExprs φ).lower := by
  refine .bind (hreport _ _ _) fun _ => .of_eq (bind_congr (h.enterScope _ _) fun _ => ?_)
  refine bind_congr (lookupFunction_congr h.symbols f.name) fun found => ?_
  cases found with
  | none => rfl
  | some signature =>
      refine bind_congr (beginMethod_congr _) fun _ => bind_congr rfl fun _ =>
        bind_congr (h.lower_stmts f.body hnames) fun _ => ?_
      cases signature.result.isVoid with
      | true => exact bind_congr rfl fun _ => bind_congr rfl fun _ => leaveScope
      | false => exact bind_congr rfl fun _ => leaveScope

theorem lower_functions (h : Rewriting φ clean S S') :
    ∀ functions : List FunctionDef,
      (∀ name ∈ functions.flatMap FunctionDef.names, clean name) →
      SameUpTo hidden S S' (FunctionDef.lowerAll functions)
        (FunctionDef.lowerAll (functions.map (FunctionDef.mapExprs φ)))
  | [], _ => .of_eq rfl
  | f :: rest, hnames => by
      rw [List.flatMap_cons, List.forall_mem_append] at hnames
      refine .bind (lower_function hreport h f fun name hname => hnames.1 name ?_) fun _ =>
        lower_functions h rest hnames.2
      exact List.mem_cons_of_mem _ (List.mem_append_right _ hname)

theorem lower_entry (h : Rewriting φ clean S S') (body : List Stmt) (functions : List FunctionDef)
    (hbody : ∀ name ∈ Stmt.namesAll body, clean name)
    (hfunctions : ∀ name ∈ functions.flatMap FunctionDef.names, clean name) :
    SameUpTo hidden S S' (lowerEntry body functions)
      (lowerEntry (Stmt.mapExprsAll φ body) (functions.map (FunctionDef.mapExprs φ))) := by
  refine .bind (hreport _ _ _) fun _ => .bind (openUnit hreport _ _) fun _ =>
    .bind (.of_eq rfl) fun _ => .bind (.of_eq rfl) fun _ => .bind (.of_eq rfl) fun _ =>
    .bind (.of_eq (h.enterScope _ _)) fun _ => .bind (.of_eq beginConstructor) fun _ =>
    .bind (.of_eq (h.lower_stmts body hbody)) fun _ => .bind (.of_eq rfl) fun _ =>
    .bind (.of_eq rfl) fun _ => .bind (.of_eq leaveScope) fun _ => ?_
  exact .bind (lower_functions hreport h functions hfunctions) fun _ => .of_eq rfl

/-- A rewritten program is lowered as it was, up to hidden requests. -/
theorem lower_program (h : Rewriting φ clean S S') (program : Program)
    (hnames : ∀ name ∈ program.names, clean name) :
    SameUpTo hidden S S' program.lower (program.mapExprs φ).lower := by
  rw [Program.names, List.forall_mem_append, List.forall_mem_append] at hnames
  obtain ⟨⟨-, hbody⟩, hfunctions⟩ := hnames
  exact .bind (lower_structs hreport h program.structs) fun _ =>
    lower_entry hreport h program.body program.functions hbody hfunctions

end Reports

end Rewriting

end JasminGen
