/-
  JasminGen.Proofs.Legible

  The code of statements without calls can be read back, if the names that stand in them
  can be written on one line. Names of functions stand in the code as texts, and those of
  structs in casts.

  Main definitions: `Stmt.idents`, `OneLine`. Main results: `ExprLowered.legible`,
  `StmtLowered.legible`.
-/

import JasminGen.Proofs.Reader
import JasminGen.Proofs.Soundness

namespace JasminGen

-- ============================================================================
-- Legible fragments
-- ============================================================================

/-- Whether the names of structs in a type, and in the types of its elements, have no line
    feed. -/
def Ty.oneLine : Ty → Bool
  | .struct name => !name.toList.contains '\n'
  | .list element => element.oneLine
  | _ => true

theorem Ty.className_oneLine {ty : Ty} {className : String} (h : ty.oneLine = true)
    (hclass : ty.className? = some className) : '\n' ∉ className.toList := by
  cases ty with
  | struct name =>
      cases hclass
      simpa [oneLine] using h
  | void => cases hclass
  | _ =>
      cases hclass
      decide

/-- Fragments that can be read back. -/
def LegibleAll (parts : List Fragment) : Prop :=
  ∀ c ∈ Fragment.codeAll parts, c.Legible

section LegibleAll

variable {parts rest : List Fragment}

@[simp] theorem legibleAll_nil : LegibleAll [] := by
  simp [LegibleAll]

@[simp] theorem legibleAll_cons_instr {i : Instr} :
    LegibleAll (.instr i :: rest) ↔ i.Legible ∧ LegibleAll rest := by
  simp [LegibleAll, Code.Legible]

@[simp] theorem legibleAll_cons_label {l : Label} :
    LegibleAll (.label l :: rest) ↔ LegibleAll rest := by
  simp [LegibleAll, Code.Legible]

@[simp] theorem legibleAll_cons_expr {e : Expr} :
    LegibleAll (.expr e parts :: rest) ↔ LegibleAll parts ∧ LegibleAll rest := by
  simp [LegibleAll, or_imp, forall_and]

@[simp] theorem legibleAll_cons_stmt {s : Stmt} :
    LegibleAll (.stmt s parts :: rest) ↔ LegibleAll parts ∧ LegibleAll rest := by
  simp [LegibleAll, or_imp, forall_and]

@[simp] theorem legibleAll_append :
    LegibleAll (parts ++ rest) ↔ LegibleAll parts ∧ LegibleAll rest := by
  simp [LegibleAll, or_imp, forall_and]

end LegibleAll

mutual

/-- The names that stand in an expression. -/
def Expr.idents : Expr → List String
  | .int _ | .bool _ => []
  | .ident name => [name]
  | .group e | .unary _ e | .size e | .field e _ => e.idents
  | .binary _ l r | .index l r | .append l r => l.idents ++ r.idents
  | .call target args => target.idents ++ Expr.identsAll args

def Expr.identsAll : List Expr → List String
  | [] => []
  | e :: rest => e.idents ++ Expr.identsAll rest

end

mutual

/-- The names that stand in the expressions of a statement. -/
def Stmt.idents : Stmt → List String
  | .block body => Stmt.identsAll body
  | .declare _ _ none | .ret none => []
  | .declare _ _ (some e) | .assign (.ident _) e | .ret (some e) | .display e | .size e => e.idents
  | .assign l r | .append l r => l.idents ++ r.idents
  | .cond test positive none => test.idents ++ positive.idents
  | .cond test positive (some negative) => test.idents ++ positive.idents ++ negative.idents
  | .loop count body => count.idents ++ body.idents
  | .call target args => target.idents ++ Expr.identsAll args

def Stmt.identsAll : List Stmt → List String
  | [] => []
  | s :: rest => s.idents ++ Stmt.identsAll rest

end

/-- What a name stands for in a scope can be written on one line: the name itself if it is
    that of a function, and the structs in its type if it is that of a variable. -/
structure OneLine (table : SymbolTable) (id : ScopeId) (name : String) : Prop where
  function : (table.function? name).isSome → '\n' ∉ name.toList
  «variable» : ∀ ty, table.lookupVariable id name = .ok (some ty) → ty.oneLine = true

theorem OneLine.of_variable {table : SymbolTable} {id : ScopeId} {name : String} {ty : Ty}
    (hfunction : table.function? name = none)
    (hvariable : table.lookupVariable id name = .ok (some ty)) (hty : ty.oneLine = true) :
    OneLine table id name := by
  refine ⟨by simp [hfunction], fun ty' hty' => ?_⟩
  obtain rfl := Option.some.inj (Except.ok.inj (hvariable.symm.trans hty'))
  exact hty

theorem OneLine.of_function {table : SymbolTable} {id : ScopeId} {name : String}
    (hname : '\n' ∉ name.toList) (hvariable : table.lookupVariable id name = .ok none) :
    OneLine table id name := by
  refine ⟨fun _ => hname, fun ty hty => ?_⟩
  rw [hvariable] at hty
  cases hty

theorem SymbolTable.oneLine_of_typeOf {table : SymbolTable} {id : ScopeId} :
    ∀ {e : Expr} {ty : Ty}, (∀ name ∈ e.idents, OneLine table id name) → e.callFree = true →
      table.typeOf id e = .ok ty → ty.oneLine = true
  | .int _, _, _, _, ht | .bool _, _, _, _, ht | .size _, _, _, _, ht
  | .append _ _, _, _, _, ht => by
      cases ht
      rfl
  | .ident name, ty, hnames, _, ht => by
      have hlookup := lookupFunction_eq ht
      cases hf : table.function? name with
      | some signature =>
          rw [hf] at hlookup
          rw [typeOfName_function hlookup ht]
          rfl
      | none =>
          rw [hf] at hlookup
          exact (hnames name (by simp [Expr.idents])).variable ty (typeOfName_variable hlookup ht)
  | .group e, ty, hnames, hfree, ht => oneLine_of_typeOf (e := e) hnames hfree ht
  | .binary op _ _, _, _, _, ht => by
      cases ht
      cases op <;> rfl
  | .unary op _, _, _, _, ht => by
      cases ht
      cases op <;> rfl
  | .index l r, ty, hnames, hfree, ht => by
      obtain ⟨hl, -⟩ := Bool.and_eq_true_iff.mp hfree
      change (table.typeOf id l).bind elementTy = .ok ty at ht
      cases hlist : table.typeOf id l with
      | error failure =>
          rw [hlist] at ht
          cases ht
      | ok found =>
          have hfound := oneLine_of_typeOf
            (fun name hname => hnames name (List.mem_append_left _ hname)) hl hlist
          rw [hlist] at ht
          cases found with
          | list element =>
              cases ht
              exact hfound
          | _ => cases ht

theorem ArithOp.legible_instr (op : ArithOp) : op.instr.Legible := by
  cases op <;> trivial

theorem LogicOp.legible_decided (op : LogicOp) : op.decided.Legible := by
  cases op <;> trivial

@[simp] theorem legible_invoke {m : Method} :
    (Instr.invoke m).Legible ↔ m.isCallable = true :=
  Iff.rfl

theorem Ty.isCallable_unboxer {ty : Ty} {m : Method} (h : ty.unboxer? = some m) :
    m.isCallable = true := by
  cases ty <;> cases h <;> rfl

theorem Ty.isCallable_printer {ty : Ty} {m : Method} (h : ty.printer? = some m) :
    m.isCallable = true := by
  cases ty <;> cases h <;> rfl

theorem legibleAll_conditionParts (negated : Branch) (l l' : Label) :
    LegibleAll (conditionParts negated l l') := by
  simp [conditionParts, Instr.Legible, Method.isCallable]

theorem ZeroCode.legible {S : Setting} {id : ScopeId} {ty : Ty} {is : List Instr}
    (h : ZeroCode S id ty is) (hplain : ty.isPlain = true) :
    LegibleAll (is.map Fragment.instr) := by
  cases h with
  | struct => cases hplain
  | fptr => cases hplain
  | _ => simp [Instr.Legible, Method.isCallable]

theorem Stmt.callFree_cond {test : Expr} {positive : Stmt} {negative : Option Stmt}
    (h : (Stmt.cond test positive negative).callFree = true) :
    test.callFree = true ∧ positive.callFree = true ∧
      Stmt.allCallFree negative.toList = true := by
  cases negative with
  | none =>
      obtain ⟨ht, hp⟩ := Bool.and_eq_true_iff.mp h
      exact ⟨ht, hp, rfl⟩
  | some negative =>
      obtain ⟨hboth, hn⟩ := Bool.and_eq_true_iff.mp h
      obtain ⟨ht, hp⟩ := Bool.and_eq_true_iff.mp hboth
      exact ⟨ht, hp, Bool.and_eq_true_iff.mpr ⟨hn, rfl⟩⟩

theorem Stmt.idents_cond (test : Expr) (positive : Stmt) (negative : Option Stmt) :
    (Stmt.cond test positive negative).idents =
      test.idents ++ positive.idents ++ Stmt.identsAll negative.toList := by
  cases negative <;> simp [idents, identsAll]

def ExprTask.callFree : ExprTask → Bool
  | .one e => e.callFree
  | .args _ => false

def ExprTask.idents : ExprTask → List String
  | .one e => e.idents
  | .args es => Expr.identsAll es

def StmtTask.callFree : StmtTask → Bool
  | .one s => s.callFree
  | .many ss => Stmt.allCallFree ss

def StmtTask.idents : StmtTask → List String
  | .one s => s.idents
  | .many ss => Stmt.identsAll ss

section Lowered

variable {S : Setting} {id : ScopeId}

/-- Two parts of a construct: what is asked of the construct is asked of both. -/
theorem legibleAll_both {free free' : Bool} {names names' : List String}
    {parts parts' : List Fragment} (hfree : (free && free') = true)
    (hnames : ∀ name ∈ names ++ names', OneLine S.symbols id name)
    (h : free = true → (∀ name ∈ names, OneLine S.symbols id name) → LegibleAll parts)
    (h' : free' = true → (∀ name ∈ names', OneLine S.symbols id name) → LegibleAll parts') :
    LegibleAll parts ∧ LegibleAll parts' := by
  obtain ⟨hf, hf'⟩ := Bool.and_eq_true_iff.mp hfree
  obtain ⟨hn, hn'⟩ := List.forall_mem_append.mp hnames
  exact ⟨h hf hn, h' hf' hn'⟩

/-- The code of expressions without calls can be read back. -/
theorem ExprLowered.legible (horacle : S.oracle = S.symbols.typeOf) {t : ExprTask} {f f' : Frame}
    {parts : List Fragment} (h : ExprLowered S t f parts f') (hid : f.activeScope = id)
    (hfree : t.callFree = true) (hnames : ∀ name ∈ t.idents, OneLine S.symbols id name) :
    LegibleAll parts := by
  induction h with
  | int => simp [Instr.Legible, Method.isCallable]
  | @bool _ b => cases b <;> simp [Instr.Legible, Method.isCallable]
  | function hf hs _ =>
      rw [SymbolTable.lookupFunction, hs] at hf
      have htext := (hnames _ (by simp [ExprTask.idents, Expr.idents])).function
        (Option.isSome_of_eq_some (Except.ok.inj hf))
      simp [Instr.Legible, Method.isCallable, htext]
  | «variable» _ _ => simp [Instr.Legible]
  | group _ ih => simpa using ih hid hfree hnames
  | @arith _ _ _ op _ _ _ _ hl _ ihl ihr =>
      obtain ⟨hleft, hright⟩ :=
        legibleAll_both hfree hnames (ihl hid) (ihr (hl.activeScope.trans hid))
      simp only [legibleAll_cons_expr, legibleAll_cons_instr]
      exact ⟨hleft, rfl, hright, rfl, op.legible_instr, rfl, legibleAll_nil⟩
  | @logic _ _ _ op _ _ _ _ hl _ ihl ihr =>
      obtain ⟨hleft, hright⟩ :=
        legibleAll_both hfree hnames (ihl hid) (ihr (hl.activeScope.trans hid))
      simp only [legibleAll_cons_expr, legibleAll_cons_instr, legibleAll_cons_label]
      exact ⟨hleft, rfl, trivial, hright, rfl, trivial, op.legible_decided, rfl, legibleAll_nil⟩
  | order hl _ ihl ihr | append hl _ ihl ihr =>
      obtain ⟨hleft, hright⟩ :=
        legibleAll_both hfree hnames (ihl hid) (ihr (hl.activeScope.trans hid))
      simp [Instr.Legible, Method.isCallable, hleft, hright, legibleAll_conditionParts]
  | equalValues _ hm hl _ ihl ihr =>
      obtain ⟨hleft, hright⟩ :=
        legibleAll_both hfree hnames (ihl hid) (ihr (hl.activeScope.trans hid))
      simp [hleft, hright, legibleAll_conditionParts, Ty.isCallable_unboxer hm]
  | equalReferences _ _ hl _ ihl ihr =>
      obtain ⟨hleft, hright⟩ :=
        legibleAll_both hfree hnames (ihl hid) (ihr (hl.activeScope.trans hid))
      simp [hleft, hright, legibleAll_conditionParts]
  | not _ ih | neg _ ih | size _ ih =>
      simp [Instr.Legible, Method.isCallable, ih hid hfree hnames]
  | index hfound hname hl _ ihl ihr =>
      obtain ⟨hleft, hright⟩ :=
        legibleAll_both hfree hnames (ihl hid) (ihr (hl.activeScope.trans hid))
      rw [horacle, hid] at hfound
      have hcast := Ty.className_oneLine (SymbolTable.oneLine_of_typeOf hnames hfree hfound) hname
      simp [Instr.Legible, Method.isCallable, hleft, hright, hcast]
  | call | argsNil | argsCopied | argsPassed => cases hfree

/-- The code of statements without calls can be read back. -/
theorem StmtLowered.legible (horacle : S.oracle = S.symbols.typeOf) {t : StmtTask} {f f' : Frame}
    {parts : List Fragment} (h : StmtLowered S t f parts f') (hid : f.activeScope = id)
    (hfree : t.callFree = true) (hnames : ∀ name ∈ t.idents, OneLine S.symbols id name) :
    LegibleAll parts := by
  induction h with
  | block _ ih => exact ih hid hfree hnames
  | declare he _ =>
      have hvalue := he.legible horacle hid (Bool.and_eq_true_iff.mp hfree).2 hnames
      simp [Instr.Legible, hvalue]
  | declareZero hzero _ => simp [Instr.Legible, hzero.legible hfree]
  | assign he _ => simp [Instr.Legible, he.legible horacle hid hfree hnames]
  | @cond _ _ _ _ test positive negative _ _ _ ht hp _ ihp ihn =>
      obtain ⟨hft, hfp, hfn⟩ := Stmt.callFree_cond hfree
      rw [StmtTask.idents, Stmt.idents_cond] at hnames
      obtain ⟨hntp, hnn⟩ := List.forall_mem_append.mp hnames
      obtain ⟨hnt, hnp⟩ := List.forall_mem_append.mp hntp
      have hid₁ := ht.activeScope.trans hid
      have htest := ht.legible horacle hid hft hnt
      have hpositive := ihp hid₁ hfp hnp
      have hnegative := ihn (hp.activeScope.trans hid₁) hfn hnn
      simp [Instr.Legible, Method.isCallable, htest, hpositive, hnegative]
  | loop _ hc _ ihb =>
      obtain ⟨hcount, hbody⟩ :=
        legibleAll_both hfree hnames (hc.legible horacle hid) (ihb (hc.activeScope.trans hid))
      simp [Instr.Legible, Method.isCallable, hcount, hbody]
  | call => cases hfree
  | ret => simp [Instr.Legible]
  | retValue => cases hfree
  | display _ hunboxer hprinter he =>
      simp [Instr.Legible, Ty.isCallable_unboxer hunboxer, Ty.isCallable_printer hprinter,
        he.legible horacle hid hfree hnames]
  | append he | size he => simp [Instr.Legible, he.legible horacle hid hfree hnames]
  | nil => exact legibleAll_nil
  | cons hs _ ih ihs =>
      obtain ⟨hfirst, hrest⟩ :=
        legibleAll_both hfree hnames (ih hid) (ihs (hs.activeScope.trans hid))
      simp [hfirst, hrest]

end Lowered

end JasminGen
