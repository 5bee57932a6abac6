/-
  JasminGen.Proofs.Lowering.Constructs

  The constructs of a program that have code: all statements, and all expressions at any
  depth. The fragments of a method hold exactly the constructs of what the method is
  made from, in the order of the program's text.

  Main definitions: `Expr.inside`, `Stmt.inside`, `Origin.inside`. Main result:
  `MethodLowered.nodes`.
-/

import JasminGen.Proofs.Lowering.Program

namespace JasminGen

-- ============================================================================
-- Constructs of the source
-- ============================================================================

mutual

/-- The expressions inside of an expression, each before those inside of it. -/
def Expr.inside : Expr → List SourceNode
  | .int _ | .bool _ | .ident _ => []
  | .group e | .unary _ e | .size e | .field e _ => .expr e :: e.inside
  | .binary _ l r | .index l r | .append l r => .expr l :: l.inside ++ .expr r :: r.inside
  | .call target args => .expr target :: target.inside ++ Expr.nodesOf args

/-- Expressions in a row, each before those inside of it. -/
def Expr.nodesOf : List Expr → List SourceNode
  | [] => []
  | e :: rest => .expr e :: e.inside ++ Expr.nodesOf rest

end

mutual

/-- The constructs inside of a statement. The target of an assignment has no code of its
    own. -/
def Stmt.inside : Stmt → List SourceNode
  | .block body => Stmt.nodesOf body
  | .declare _ _ none | .ret none => []
  | .declare _ _ (some e) | .ret (some e) | .display e | .assign _ e => .expr e :: e.inside
  | .cond test positive none =>
    .expr test :: test.inside ++ .stmt positive :: positive.inside
  | .cond test positive (some negative) =>
    .expr test :: test.inside ++ .stmt positive :: positive.inside ++
      .stmt negative :: negative.inside
  | .loop count body => .expr count :: count.inside ++ .stmt body :: body.inside
  | .call target args => .expr (.call target args) :: (Expr.call target args).inside
  | .append l r => .expr (.append l r) :: (Expr.append l r).inside
  | .size e => .expr (.size e) :: (Expr.size e).inside

/-- Statements in a row, each before the constructs inside of it. -/
def Stmt.nodesOf : List Stmt → List SourceNode
  | [] => []
  | s :: rest => .stmt s :: s.inside ++ Stmt.nodesOf rest

end

/-- The values that fields start with. -/
def FieldDef.nodesOf (fields : List FieldDef) : List SourceNode :=
  Expr.nodesOf (fields.filterMap FieldDef.value)

/-- The constructs that a method is made from. -/
def Origin.inside : Origin → List SourceNode
  | .constructor s => FieldDef.nodesOf s.fields
  | .entry => []
  | .body ss => Stmt.nodesOf ss
  | .function f => Stmt.nodesOf f.body

-- ============================================================================
-- Constructs in fragments
-- ============================================================================

def ExprTask.inside : ExprTask → List SourceNode
  | .one e => e.inside
  | .args es => Expr.nodesOf es

def StmtTask.inside : StmtTask → List SourceNode
  | .one s => s.inside
  | .many ss => Stmt.nodesOf ss

@[simp] theorem nodesAll_conditionParts (negated : Branch) (otherwise after : Label) :
    Fragment.nodesAll (conditionParts negated otherwise after) = [] := by
  simp [conditionParts]

variable {S : Setting}

theorem ExprLowered.nodes {t : ExprTask} {f f' : Frame} {parts : List Fragment}
    (h : ExprLowered S t f parts f') : Fragment.nodesAll parts = t.inside := by
  induction h with
  | _ => simp_all [ExprTask.inside, Expr.inside, Expr.nodesOf]

theorem Stmt.inside_cond (test : Expr) (positive : Stmt) (negative : Option Stmt) :
    (Stmt.cond test positive negative).inside = .expr test :: test.inside ++
      .stmt positive :: positive.inside ++ Stmt.nodesOf negative.toList := by
  cases negative <;> simp [Stmt.inside, Stmt.nodesOf]

theorem StmtLowered.nodes {t : StmtTask} {f f' : Frame} {parts : List Fragment}
    (h : StmtLowered S t f parts f') : Fragment.nodesAll parts = t.inside := by
  induction h with
  | declare he _ | assign he _ | retValue _ he | display _ _ _ he | call _ he | append he
  | size he =>
      simp [StmtTask.inside, Stmt.inside, he.nodes, ExprTask.inside]
  | cond ht _ _ ihp ihn =>
      simp [StmtTask.inside, Stmt.inside_cond, ht.nodes, ihp, ihn, ExprTask.inside]
  | loop _ hc _ ihb => simp [StmtTask.inside, Stmt.inside, hc.nodes, ihb, ExprTask.inside]
  | _ => simp_all [StmtTask.inside, Stmt.inside, Stmt.nodesOf]

theorem FieldsLowered.nodes {className : String} {fields : List FieldDef} {f f' : Frame}
    {p : List Fragment} (h : FieldsLowered S className fields f p f') :
    Fragment.nodesAll p = FieldDef.nodesOf fields := by
  induction h with
  | nil => simp [FieldDef.nodesOf, Expr.nodesOf]
  | cons hi _ ih =>
      cases hi with
      | value he => simp_all [FieldDef.nodesOf, Expr.nodesOf, he.nodes, ExprTask.inside]
      | null | zero => simp_all [FieldDef.nodesOf]

/-- A method holds the constructs of what it is made from, and no others. -/
theorem MethodLowered.nodes {o : Origin} {n n' : Label} {m : LoweredMethod}
    (h : MethodLowered S o n m n') : Fragment.nodesAll m.parts = o.inside := by
  cases h with
  | constructor _ hf => simp [superParts, hf.nodes, Origin.inside]
  | entry => simp [Origin.inside]
  | body _ hb => simp [superParts, hb.nodes, Origin.inside, StmtTask.inside]
  | @function f id signature _ _ _ _ _ _ _ hb =>
      cases signature.result.isVoid <;>
        simp [hb.nodes, Origin.inside, StmtTask.inside]

end JasminGen
