/-
  JasminGen.Proofs.Lowering.Fragment

  Generated code together with the source constructs it is for: a fragment is an
  instruction, a label declaration, or the fragments that one expression or statement
  is made of. Its spans are the places in the code that belong to each construct.

  Main definitions: `Fragment`, `Fragment.codeAll`, `Fragment.spansAll`,
  `Fragment.nodesAll`.
-/

import JasminGen.Code.Emission
import JasminGen.Stmt

namespace JasminGen

/-- A piece of generated code that knows which constructs its parts are for. -/
inductive Fragment where
  | instr (i : Instr)
  | label (l : Label)
  | expr (e : Expr) (parts : List Fragment)
  | stmt (s : Stmt) (parts : List Fragment)

/-- A construct that has code of its own. -/
inductive SourceNode where
  | expr (e : Expr)
  | stmt (s : Stmt)

/-- The places of a construct in the code: its first line, and the line after its
    last. -/
structure Span where
  node : SourceNode
  start : Nat
  stop : Nat

namespace Fragment

-- ============================================================================
-- The code of fragments
-- ============================================================================

mutual

/-- The lines of a fragment. -/
def code : Fragment → List Code
  | .instr i => [.instr i]
  | .label l => [.label l]
  | .expr _ parts => codeAll parts
  | .stmt _ parts => codeAll parts

/-- The lines of fragments in a row. -/
def codeAll : List Fragment → List Code
  | [] => []
  | p :: rest => p.code ++ codeAll rest

end

@[simp] theorem code_instr (i : Instr) : (instr i).code = [.instr i] := by
  rw [code]

@[simp] theorem code_label (l : Label) : (label l).code = [.label l] := by
  rw [code]

@[simp] theorem code_expr (e : Expr) (parts : List Fragment) :
    (expr e parts).code = codeAll parts := by
  rw [code]

@[simp] theorem code_stmt (s : Stmt) (parts : List Fragment) :
    (stmt s parts).code = codeAll parts := by
  rw [code]

@[simp] theorem codeAll_nil : codeAll [] = [] := by
  rw [codeAll]

@[simp] theorem codeAll_cons (p : Fragment) (rest : List Fragment) :
    codeAll (p :: rest) = p.code ++ codeAll rest := by
  rw [codeAll]

@[simp] theorem codeAll_append (ps qs : List Fragment) :
    codeAll (ps ++ qs) = codeAll ps ++ codeAll qs := by
  induction ps with
  | nil => simp
  | cons p rest ih => simp [ih]

@[simp] theorem codeAll_map_instr (is : List Instr) :
    codeAll (is.map Fragment.instr) = is.map Code.instr := by
  induction is with
  | nil => simp
  | cons i rest ih => simp [ih]

-- ============================================================================
-- The constructs of fragments
-- ============================================================================

mutual

/-- The constructs of a fragment, each before those inside of it. -/
def nodes : Fragment → List SourceNode
  | .instr _ => []
  | .label _ => []
  | .expr e parts => .expr e :: nodesAll parts
  | .stmt s parts => .stmt s :: nodesAll parts

/-- The constructs of fragments in a row. -/
def nodesAll : List Fragment → List SourceNode
  | [] => []
  | p :: rest => p.nodes ++ nodesAll rest

end

mutual

/-- The spans of a fragment whose code starts at the given place. -/
def spans (start : Nat) : Fragment → List Span
  | .instr _ => []
  | .label _ => []
  | .expr e parts => ⟨.expr e, start, start + (codeAll parts).length⟩ :: spansAll start parts
  | .stmt s parts => ⟨.stmt s, start, start + (codeAll parts).length⟩ :: spansAll start parts

/-- The spans of fragments in a row, the first of which starts at the given place. -/
def spansAll (start : Nat) : List Fragment → List Span
  | [] => []
  | p :: rest => p.spans start ++ spansAll (start + p.code.length) rest

end

@[simp] theorem nodesAll_nil : nodesAll [] = [] := by
  rw [nodesAll]

@[simp] theorem nodesAll_cons (p : Fragment) (rest : List Fragment) :
    nodesAll (p :: rest) = p.nodes ++ nodesAll rest := by
  rw [nodesAll]

@[simp] theorem nodes_instr (i : Instr) : (instr i).nodes = [] := by
  rw [nodes]

@[simp] theorem nodes_label (l : Label) : (label l).nodes = [] := by
  rw [nodes]

@[simp] theorem nodes_expr (e : Expr) (parts : List Fragment) :
    (expr e parts).nodes = .expr e :: nodesAll parts := by
  rw [nodes]

@[simp] theorem nodes_stmt (s : Stmt) (parts : List Fragment) :
    (stmt s parts).nodes = .stmt s :: nodesAll parts := by
  rw [nodes]

@[simp] theorem nodesAll_append (ps qs : List Fragment) :
    nodesAll (ps ++ qs) = nodesAll ps ++ nodesAll qs := by
  induction ps with
  | nil => simp
  | cons p rest ih => simp [ih]

@[simp] theorem nodesAll_map_instr (is : List Instr) :
    nodesAll (is.map Fragment.instr) = [] := by
  induction is with
  | nil => simp
  | cons i rest ih => simp [ih]

@[simp] theorem spansAll_nil (start : Nat) : spansAll start [] = [] := by
  rw [spansAll]

@[simp] theorem spansAll_cons (start : Nat) (p : Fragment) (rest : List Fragment) :
    spansAll start (p :: rest) = p.spans start ++ spansAll (start + p.code.length) rest := by
  rw [spansAll]

@[simp] theorem spans_instr (start : Nat) (i : Instr) : (instr i).spans start = [] := by
  rw [spans]

@[simp] theorem spans_label (start : Nat) (l : Label) : (label l).spans start = [] := by
  rw [spans]

@[simp] theorem spans_expr (start : Nat) (e : Expr) (parts : List Fragment) :
    (expr e parts).spans start =
      ⟨.expr e, start, start + (codeAll parts).length⟩ :: spansAll start parts := by
  rw [spans]

@[simp] theorem spans_stmt (start : Nat) (s : Stmt) (parts : List Fragment) :
    (stmt s parts).spans start =
      ⟨.stmt s, start, start + (codeAll parts).length⟩ :: spansAll start parts := by
  rw [spans]

end Fragment

end JasminGen
