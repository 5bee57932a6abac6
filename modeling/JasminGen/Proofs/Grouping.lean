/-
  JasminGen.Proofs.Grouping

  Parentheses make no difference. An expression in parentheses is lowered as the
  expression itself and has its type, and the symbol table of a program does not depend on
  expressions. So a program without its parentheses gives the same code, and the same
  errors. Only comments show them, and the target of an assignment is not to be in
  parentheses.

  Main definitions: `Expr.ungrouped`, `Program.ungrouped`. Main result:
  `grouping_transparent`.
-/

import JasminGen.Compile
import JasminGen.Output.Memory
import JasminGen.Proofs.Actions
import JasminGen.Proofs.Lowering.Coupling
import JasminGen.Proofs.Lowering.Rewriting

namespace JasminGen

-- ============================================================================
-- Taking parentheses away
-- ============================================================================

mutual

/-- An expression without any parentheses in it. -/
def Expr.ungrouped : Expr → Expr
  | .int n => .int n
  | .bool b => .bool b
  | .ident name => .ident name
  | .group e => e.ungrouped
  | .binary op l r => .binary op l.ungrouped r.ungrouped
  | .unary op e => .unary op e.ungrouped
  | .index l r => .index l.ungrouped r.ungrouped
  | .append l r => .append l.ungrouped r.ungrouped
  | .size e => .size e.ungrouped
  | .call target args => .call target.ungrouped (Expr.ungroupedAll args)
  | .field e name => .field e.ungrouped name

def Expr.ungroupedAll : List Expr → List Expr
  | [] => []
  | e :: rest => e.ungrouped :: Expr.ungroupedAll rest

end

theorem Expr.ungroupedAll_eq_map (es : List Expr) : ungroupedAll es = es.map ungrouped := by
  induction es with
  | nil => rfl
  | cons e rest ih => rw [ungroupedAll, ih, List.map_cons]

/-- A program without parentheses, but in the targets of assignments. -/
def Program.ungrouped (program : Program) : Program :=
  program.mapExprs Expr.ungrouped

-- ============================================================================
-- Types and symbols
-- ============================================================================

theorem SymbolTable.typeOf_ungrouped (table : SymbolTable) (id : ScopeId) :
    ∀ e : Expr, table.typeOf id e.ungrouped = table.typeOf id e
  | .int _ | .bool _ | .ident _ | .binary _ _ _ | .unary _ _ | .append _ _ | .size _
  | .field _ _ => rfl
  | .group e => typeOf_ungrouped table id e
  | .index l _ => congrArg (Except.bind · elementTy) (typeOf_ungrouped table id l)
  | .call target _ => congrArg (Except.bind · resultTy) (typeOf_ungrouped table id target)

section Symbols

variable (φ : Expr → Expr)

mutual

theorem Stmt.declares_mapExprs : ∀ s : Stmt, (s.mapExprs φ).declares = s.declares
  | .block body => Stmt.declaresAll_mapExprs body
  | .declare _ _ _ | .assign _ _ | .call _ _ | .ret _ | .display _ | .append _ _ | .size _ => rfl
  | .cond _ positive none => Stmt.declares_mapExprs positive
  | .cond _ positive (some negative) =>
      congrArg₂ (· ++ ·) (Stmt.declares_mapExprs positive) (Stmt.declares_mapExprs negative)
  | .loop _ body => Stmt.declares_mapExprs body

theorem Stmt.declaresAll_mapExprs :
    ∀ ss : List Stmt, Stmt.declaresAll (Stmt.mapExprsAll φ ss) = Stmt.declaresAll ss
  | [] => rfl
  | s :: rest =>
      congrArg₂ (· ++ ·) (Stmt.declares_mapExprs s) (Stmt.declaresAll_mapExprs rest)

end

theorem SymbolTable.addStruct_mapExprs (table : SymbolTable) (s : StructDef) :
    table.addStruct (s.mapExprs φ) = table.addStruct s := by
  have hfields : (s.mapExprs φ).fields.map FieldDef.binding = s.fields.map FieldDef.binding :=
    List.map_map
  rw [addStruct, addStruct, hfields]
  rfl

theorem SymbolTable.addFunction_mapExprs (table : SymbolTable) (f : FunctionDef) :
    table.addFunction (f.mapExprs φ) = table.addFunction f := by
  have hbody := Stmt.declaresAll_mapExprs φ f.body
  simp only [addFunction, FunctionDef.mapExprs, hbody]

/-- The symbol table of a program does not depend on its expressions. -/
theorem SymbolTable.ofProgram_mapExprs (program : Program) :
    ofProgram (program.mapExprs φ) = ofProgram program := by
  have hbody := Stmt.declaresAll_mapExprs φ program.body
  simp only [ofProgram, Program.mapExprs, List.foldl_map, addStruct_mapExprs,
    addFunction_mapExprs, hbody]

end Symbols

-- ============================================================================
-- Main result
-- ============================================================================

theorem Stmt.comment_of_not_debug {S : Setting} (h : S.options.debug = false) (s : Stmt)
    (f : Frame) : s.comment S f = .done (.ok ()) f := by
  rcases s.comment_run S f with hnone | ⟨hdebug, -⟩
  · exact hnone
  · rw [h] at hdebug
    cases hdebug

/-- Parentheses are taken away without a difference, if comments do not show them. -/
theorem Rewriting.ungrouped (symbols : SymbolTable) {options : Options}
    (hdebug : options.debug = false) :
    Rewriting Expr.ungrouped (fun _ => True) ⟨symbols, symbols.typeOf, options⟩
      ⟨symbols, symbols.typeOf, options⟩ where
  symbols := rfl
  oracle id e := symbols.typeOf_ungrouped id e
  int _ := rfl
  bool _ := rfl
  ident _ := rfl
  group _ := rfl
  binary _ _ _ := rfl
  unary _ _ := rfl
  index _ _ := rfl
  append _ _ := rfl
  size _ := rfl
  call target args := by rw [Expr.ungrouped, Expr.ungroupedAll_eq_map]
  field _ _ := rfl
  comment s _ := by
    funext f
    rw [Stmt.comment_of_not_debug hdebug, Stmt.comment_of_not_debug hdebug]
  target _ _ := rfl

/-- Nothing is hidden, so the outcomes are the same. -/
theorem Outcome.SameUpTo.eq {α : Type} {o o' : Outcome α}
    (h : o.SameUpTo (fun _ => false) o') : o' = o := by
  obtain ⟨result, requests, frame⟩ := o
  obtain ⟨hresult, hframe, hrequests⟩ := h
  simp only [Bool.not_false, List.filter_true] at hrequests
  cases o'
  cases hresult
  cases hframe
  cases hrequests
  rfl

/-- Without comments, taking the parentheses of a program away changes nothing about a run
    on it: neither its result, nor what is written, nor what is reported. -/
theorem grouping_transparent {σ ω : Type} [Sink σ ω] (program : Program) (options : Options)
    (sink : σ) (hdebug : options.debug = false) :
    generate (.ofProgram program.ungrouped options) program.ungrouped sink =
      generate (.ofProgram program options) program sink (ω := ω) := by
  have hsymbols : Setting.ofProgram program.ungrouped options = .ofProgram program options := by
    rw [Setting.ofProgram, Program.ungrouped, SymbolTable.ofProgram_mapExprs]
    rfl
  have hsame : Gen.SameUpTo (fun _ => false) (.ofProgram program options)
      (.ofProgram program options) program.lower program.ungrouped.lower :=
    (Rewriting.ungrouped (.ofProgram program) hdebug).lower_program (fun _ _ _ => .of_eq rfl)
      program fun _ _ => trivial
  rw [hsymbols]
  exact Session.run_congr program.propagates_lower program.ungrouped.propagates_lower
    (hsame .initial).eq

/-- A program with parentheses in an initial value, around operands, a condition, the
    target and an argument of a call, and the count of a loop. -/
def groupedProgram : Program where
  structs := [⟨"Box", [⟨"width", .int, some (.group (.int 1))⟩]⟩]
  body := [.declare "xs" (.list .int) none, .append (.group (.ident "xs")) (.group (.int 2)),
    .cond (.group (.binary (.order .lt) (.group (.int 1)) (.int 2)))
      (.call (.group (.ident "note")) [.group (.ident "xs")]) none,
    .loop (.size (.group (.ident "xs"))) (.display (.group (.group (.int 1))))]
  functions := [⟨"note", [⟨"ys", .list .int⟩], .void, []⟩]

theorem grouping_transparent_groupedProgram :
    groupedProgram.ungrouped.body = [.declare "xs" (.list .int) none,
        .append (.ident "xs") (.int 2),
        .cond (.binary (.order .lt) (.int 1) (.int 2)) (.call (.ident "note") [.ident "xs"]) none,
        .loop (.size (.ident "xs")) (.display (.int 1))] ∧
      generate (.ofProgram groupedProgram.ungrouped {}) groupedProgram.ungrouped Memory.empty =
        generate (.ofProgram groupedProgram {}) groupedProgram Memory.empty :=
  ⟨rfl, grouping_transparent groupedProgram {} Memory.empty rfl⟩

end JasminGen
