/-
  JasminGen.Proofs.Colors

  Colours and reports do not reach the output. Rendered source is coloured by sequences
  around some of its pieces. These are deleted again before a text goes into a comment or
  an error, so that nothing of them is left if no name brings in escape characters of its
  own. Reports go to another place than units.

  Of the function that deletes sequences only that is used: from a text with colours and
  without other escape characters it deletes the sequences, and certain characters.

  Main definitions: `Text.Painted`, `Text.DeletesColors`. Main results:
  `Text.strip_deletesColors`, `colors_stay_outside`.
-/

import JasminGen.Output.Memory
import JasminGen.Proofs.Actions
import JasminGen.Proofs.Lowering.Coupling
import JasminGen.Proofs.Lowering.Rewriting
import JasminGen.Proofs.Reader

namespace JasminGen

-- ============================================================================
-- Painted texts
-- ============================================================================

namespace Text

/-- The character that control sequences start with. -/
def escapeChar : Char := '\x1b'

/-- A text without escape characters. -/
def Plain (text : String) : Prop := escapeChar ∉ text.toList

instance (text : String) : Decidable (Plain text) :=
  inferInstanceAs (Decidable (escapeChar ∉ text.toList))

theorem plain_append {text text' : String} : Plain (text ++ text') ↔ Plain text ∧ Plain text' := by
  rw [Plain, String.toList_append, List.mem_append, not_or]
  rfl

/-- The sequence that selects a colour by its code. -/
def sequence (code : String) : List Char :=
  escapeChar :: '[' :: (code.toList ++ ['m'])

/-- `Painted t p`: the text `t` is `p` with sequences put into it that select and reset
    colours. There are no other escape characters. -/
inductive Painted : List Char → List Char → Prop where
  | nil : Painted [] []
  | char {c : Char} {t p : List Char} :
      c ≠ escapeChar → Painted t p → Painted (c :: t) (c :: p)
  | select {color : Color} {t p : List Char} :
      Painted t p → Painted (sequence color.code ++ t) p
  | reset {t p : List Char} : Painted t p → Painted (sequence "0" ++ t) p

namespace Painted

theorem append {t t' p p' : List Char} (h : Painted t p) (h' : Painted t' p') :
    Painted (t ++ t') (p ++ p') := by
  induction h with
  | nil => exact h'
  | char hc _ ih => exact .char hc ih
  | select _ ih =>
      rw [List.append_assoc]
      exact .select ih
  | reset _ ih =>
      rw [List.append_assoc]
      exact .reset ih

theorem of_plain {t : List Char} (h : escapeChar ∉ t) : Painted t t := by
  induction t with
  | nil => exact .nil
  | cons c rest ih =>
      rw [List.mem_cons, not_or] at h
      exact .char (Ne.symm h.1) (ih h.2)

end Painted

/-- The same of strings. -/
def Paints (t p : String) : Prop := Painted t.toList p.toList

theorem Paints.append {t t' p p' : String} (h : Paints t p) (h' : Paints t' p') :
    Paints (t ++ t') (p ++ p') := by
  rw [Paints, String.toList_append, String.toList_append]
  exact Painted.append h h'

theorem Paints.of_plain {text : String} (h : Plain text) : Paints text text :=
  Painted.of_plain h

theorem Paints.paint (colored : Bool) (color : Color) {text : String} (h : Plain text) :
    Paints (paint colored color text) text := by
  cases colored with
  | false => exact .of_plain h
  | true =>
      have htext : (Text.paint true color text).toList =
          sequence color.code ++ (text.toList ++ sequence "0") := by
        simp [Text.paint, sequence, escapeChar]
      have hreset : Painted (sequence "0") [] := .reset .nil
      have hpainted := (Painted.of_plain h).append hreset
      rw [List.append_nil] at hpainted
      rw [Paints, htext]
      exact .select hpainted

-- ============================================================================
-- Deleting colours
-- ============================================================================

/-- From painted texts, the function deletes all sequences, and of the other characters
    those that are not to be kept. -/
def DeletesColors (strip : String → String) : Prop :=
  ∃ kept : Char → Bool, ∀ t p, Painted t p →
    strip (String.ofList t) = String.ofList (p.filter kept)

theorem DeletesColors.eq {strip : String → String} (h : DeletesColors strip) {t t' p : String}
    (ht : Paints t p) (ht' : Paints t' p) : strip t = strip t' := by
  obtain ⟨kept, hkept⟩ := h
  have hleft := hkept _ _ ht
  have hright := hkept _ _ ht'
  rw [String.ofList_toList] at hleft hright
  rw [hleft, hright]

/-- Line feeds are kept, and all characters that are no control characters. -/
def isShown (c : Char) : Bool := c == '\n' || !isControl c

theorem stripFrom_select (color : Color) (t : List Char) :
    stripFrom .plain (sequence color.code ++ t) = stripFrom .plain t := by
  cases color <;> rfl

theorem Scan.next_plain {c : Char} (h : c ≠ escapeChar) : Scan.plain.next c = .plain := by
  have hcode : (c.toNat == 0x1B) = false := by
    rw [beq_eq_false_iff_ne]
    intro heq
    exact h (Char.toNat_inj.mp heq)
  simp only [Scan.next, hcode, Bool.false_eq_true, if_false]
  split <;> rfl

/-- Deleting control sequences deletes colours. -/
theorem strip_deletesColors : DeletesColors strip := by
  refine ⟨isShown, fun t p h => ?_⟩
  rw [strip, String.toList_ofList]
  congr 1
  induction h with
  | nil => rfl
  | @char c t p hc _ ih =>
      have hshown : Scan.plain.shown c = if isShown c then [c] else [] := rfl
      rw [stripFrom_cons, Scan.next_plain hc, ih, hshown, List.filter_cons]
      split <;> rfl
  | select _ ih => rw [stripFrom_select, ih]
  | reset _ ih => exact ih

end Text

open Text (Plain Painted Paints plain_append)

-- ============================================================================
-- Rendered source
-- ============================================================================

theorem plain_toString_nat (n : Nat) : Plain (toString n) := by
  intro hmem
  cases isDigit_of_mem_toString hmem

theorem plain_toString_int (k : Int) : Plain (toString k) := by
  rcases toList_toString_int k with ⟨n, hlist, -⟩ | ⟨n, hlist, -⟩
  · rw [Plain, hlist]
    exact plain_toString_nat n
  · rw [Plain, hlist, List.mem_cons, not_or]
    exact ⟨by decide, plain_toString_nat n⟩

theorem BinaryOp.plain_symbol (op : BinaryOp) : Plain op.symbol := by
  cases op with
  | arith op => cases op <;> decide
  | order op => cases op <;> decide
  | logic op => cases op <;> decide
  | equal => decide

mutual

theorem Ty.plain_render : ∀ ty : Ty, (∀ name ∈ ty.names, Plain name) → Plain ty.render
  | .int, _ | .bool, _ | .void, _ => by decide
  | .struct name, h => plain_append.mpr ⟨by decide, h name List.mem_cons_self⟩
  | .list element, h => plain_append.mpr ⟨by decide, Ty.plain_render element h⟩
  | .fptr [] result, h =>
      plain_append.mpr ⟨plain_append.mpr ⟨by decide, Ty.plain_render result h⟩, by decide⟩
  | .fptr (p :: ps) result, h => by
      obtain ⟨hparams, hresult⟩ := List.forall_mem_append.mp h
      obtain ⟨hp, hps⟩ := List.forall_mem_append.mp hparams
      have hfirst : Plain ("fptr<" ++ p.render) :=
        plain_append.mpr ⟨by decide, Ty.plain_render p hp⟩
      have hall := plain_append.mpr ⟨hfirst, Ty.plain_renderTail ps hps⟩
      refine plain_append.mpr ⟨plain_append.mpr ⟨plain_append.mpr ⟨hall, by decide⟩, ?_⟩, by decide⟩
      exact Ty.plain_render result hresult

theorem Ty.plain_renderTail : ∀ tys : List Ty, (∀ name ∈ Ty.namesAll tys, Plain name) →
    Plain (Ty.renderTail tys)
  | [], _ => by decide
  | p :: ps, h => by
      obtain ⟨hp, hps⟩ := List.forall_mem_append.mp h
      exact plain_append.mpr ⟨plain_append.mpr ⟨by decide, Ty.plain_render p hp⟩,
        Ty.plain_renderTail ps hps⟩

end

section Render

variable (colored : Bool)

mutual

/-- A coloured expression is the expression with colours. -/
theorem Expr.paints_render : ∀ e : Expr, (∀ name ∈ e.names, Plain name) →
    Paints (e.render colored) (e.render false)
  | .int n, _ => .paint colored _ (plain_toString_int _)
  | .bool b, _ => .paint colored _ (by cases b <;> decide)
  | .ident name, h => .paint colored _ (h name List.mem_cons_self)
  | .group e, h =>
      .append (.append (.of_plain (by decide)) (Expr.paints_render e h)) (.of_plain (by decide))
  | .binary op l r, h => by
      rw [Expr.names, List.forall_mem_append] at h
      exact .append (.append (.append (.append (Expr.paints_render l h.1) (.of_plain (by decide)))
        (.of_plain op.plain_symbol)) (.of_plain (by decide))) (Expr.paints_render r h.2)
  | .unary op e, h => .append (.of_plain (by cases op <;> decide)) (Expr.paints_render e h)
  | .index l r, h => by
      rw [Expr.names, List.forall_mem_append] at h
      exact .append (.append (.append (Expr.paints_render l h.1) (.of_plain (by decide)))
        (Expr.paints_render r h.2)) (.of_plain (by decide))
  | .append l r, h => by
      rw [Expr.names, List.forall_mem_append] at h
      exact .append (.append (.append (.append (.append (.paint colored _ (by decide))
        (.of_plain (by decide))) (Expr.paints_render l h.1)) (.of_plain (by decide)))
        (Expr.paints_render r h.2)) (.of_plain (by decide))
  | .size e, h =>
      .append (.append (.append (.paint colored _ (by decide)) (.of_plain (by decide)))
        (Expr.paints_render e h)) (.of_plain (by decide))
  | .call target args, h => by
      rw [Expr.names, List.forall_mem_append] at h
      exact .append (.append (.append (Expr.paints_render target h.1) (.of_plain (by decide)))
        (Expr.paints_renderArgs args h.2)) (.of_plain (by decide))
  | .field e name, h => by
      rw [Expr.names, List.forall_mem_append] at h
      exact .append (.append (Expr.paints_render e h.1) (.of_plain (by decide)))
        (.paint colored _ (h.2 name List.mem_cons_self))

theorem Expr.paints_renderArgs : ∀ es : List Expr, (∀ name ∈ Expr.namesAll es, Plain name) →
    Paints (Expr.renderArgs colored es) (Expr.renderArgs false es)
  | [], _ => Painted.nil
  | [e], h => by
      rw [Expr.namesAll, List.forall_mem_append] at h
      exact Expr.paints_render e h.1
  | e :: next :: rest, h => by
      rw [Expr.namesAll, List.forall_mem_append] at h
      exact .append (.append (Expr.paints_render e h.1) (.of_plain (by decide)))
        (Expr.paints_renderArgs (next :: rest) h.2)

end

theorem Ty.paints_paintedRender {ty : Ty} (h : ∀ name ∈ ty.names, Plain name) :
    Paints (ty.paintedRender colored) (ty.paintedRender false) :=
  .paint colored _ (ty.plain_render h)

/-- A coloured statement is the statement with colours. -/
theorem Stmt.paints_render (s : Stmt) (h : ∀ name ∈ s.names, Plain name) :
    Paints (s.render colored) (s.render false) := by
  cases s with
  | block body =>
      exact .append (.append (.of_plain (by decide)) (.of_plain (plain_toString_nat _)))
        (.of_plain (by decide))
  | declare name ty value =>
      cases value with
      | none =>
          rw [Stmt.names, List.forall_mem_cons] at h
          exact .append (.append (Ty.paints_paintedRender colored h.2) (.of_plain (by decide)))
            (.paint colored _ h.1)
      | some e =>
          rw [Stmt.names, List.forall_mem_cons, List.forall_mem_append] at h
          exact .append (.append (.append (.append (Ty.paints_paintedRender colored h.2.1)
            (.of_plain (by decide))) (.paint colored _ h.1)) (.of_plain (by decide)))
            (e.paints_render colored h.2.2)
  | assign target value =>
      rw [Stmt.names, List.forall_mem_append] at h
      exact .append (.append (target.paints_render colored h.1) (.of_plain (by decide)))
        (value.paints_render colored h.2)
  | cond test positive negative =>
      have htest : ∀ name ∈ test.names, Plain name := by
        intro name hname
        cases negative <;> exact h name (by simp [Stmt.names, hname])
      exact .append (.append (.append (.paint colored _ (by decide)) (.of_plain (by decide)))
        (test.paints_render colored htest)) (.of_plain (by decide))
  | loop count body =>
      rw [Stmt.names, List.forall_mem_append] at h
      exact .append (.append (.append (.append (.paint colored _ (by decide))
        (.of_plain (by decide))) (count.paints_render colored h.1)) (.of_plain (by decide)))
        (.paint colored _ (by decide))
  | call target args => exact (Expr.call target args).paints_render colored h
  | ret value =>
      cases value with
      | none => exact .paint colored _ (by decide)
      | some e =>
          exact .append (.append (.paint colored _ (by decide)) (.of_plain (by decide)))
            (e.paints_render colored h)
  | display value =>
      exact .append (.append (.append (.paint colored _ (by decide)) (.of_plain (by decide)))
        (value.paints_render colored h)) (.of_plain (by decide))
  | append list element => exact (Expr.append list element).paints_render colored h
  | size list => exact (Expr.size list).paints_render colored h

end Render

-- ============================================================================
-- Lowering with and without colours
-- ============================================================================

mutual

theorem Stmt.mapExprs_id : ∀ s : Stmt, s.mapExprs id = s
  | .block body => congrArg Stmt.block (Stmt.mapExprsAll_id body)
  | .declare name ty _ => congrArg (Stmt.declare name ty) Option.map_id_apply
  | .assign _ _ | .display _ | .append _ _ | .size _ => rfl
  | .cond test positive none => congrArg (Stmt.cond test · none) (Stmt.mapExprs_id positive)
  | .cond test positive (some negative) =>
      congrArg₂ (Stmt.cond test · <| some ·) (Stmt.mapExprs_id positive) (Stmt.mapExprs_id negative)
  | .loop count body => congrArg (Stmt.loop count) (Stmt.mapExprs_id body)
  | .call target args => congrArg (Stmt.call target) (List.map_id args)
  | .ret _ => congrArg Stmt.ret Option.map_id_apply

theorem Stmt.mapExprsAll_id : ∀ ss : List Stmt, Stmt.mapExprsAll id ss = ss
  | [] => rfl
  | s :: rest => congrArg₂ List.cons (Stmt.mapExprs_id s) (Stmt.mapExprsAll_id rest)

end

theorem Program.mapExprs_id (program : Program) : program.mapExprs id = program := by
  have hfield : FieldDef.mapExprs id = id := by
    funext field
    simp [FieldDef.mapExprs]
  have hstruct : StructDef.mapExprs id = id := by
    funext s
    simp [StructDef.mapExprs, hfield]
  have hfunction : FunctionDef.mapExprs id = id := by
    funext f
    simp [FunctionDef.mapExprs, Stmt.mapExprsAll_id]
  simp [Program.mapExprs, hstruct, hfunction, Stmt.mapExprsAll_id]

/-- Sources without escape characters in names show the same of themselves with colours and
    without. -/
theorem Rewriting.painted (symbols : SymbolTable) (oracle : Oracle) {strip : String → String}
    (hstrip : Text.DeletesColors strip) (debug verbose verbose' colored colored' : Bool) :
    Rewriting id Plain ⟨symbols, oracle, ⟨debug, verbose, colored, strip⟩⟩
      ⟨symbols, oracle, ⟨debug, verbose', colored', strip⟩⟩ where
  symbols := rfl
  oracle _ _ := rfl
  int _ := rfl
  bool _ := rfl
  ident _ := rfl
  group _ := rfl
  binary _ _ _ := rfl
  unary _ _ := rfl
  index _ _ := rfl
  append _ _ := rfl
  size _ := rfl
  call target args := by rw [List.map_id]; rfl
  field _ _ := rfl
  comment s hnames := by
    funext f
    have htext := hstrip.eq (s.paints_render colored' hnames) (s.paints_render colored hnames)
    rw [s.mapExprs_id, Stmt.comment_eq, Stmt.comment_eq]
    cases debug with
    | false => cases s <;> rfl
    | true =>
        cases s with
        | block => rfl
        | _ => simp only [htext]; rfl
  target e hnames :=
    hstrip.eq (e.paints_render colored' hnames) (e.paints_render colored hnames)

-- ============================================================================
-- Main result
-- ============================================================================

def Action.isReport : Action → Bool
  | .report _ => true
  | _ => false

/-- Reports do nothing to the output. -/
theorem Output.actAll_filter {σ ω : Type} [Sink σ ω] (acts : List Action) (out : Output σ ω) :
    actAll (acts.filter fun action => !action.isReport) out = actAll acts out := by
  induction acts generalizing out with
  | nil => rfl
  | cons action rest ih =>
      cases hreport : action.isReport with
      | true =>
          have hact : act action out = (.ok (), out) := by
            cases action with
            | report line => rfl
            | _ => cases hreport
          rw [List.filter_cons_of_neg (by simp [hreport]), ih, actAll_cons_ok hact]
      | false =>
          rw [List.filter_cons_of_pos (by simp [hreport])]
          rcases hact : act action out with ⟨_ | _, out'⟩
          · rw [actAll_cons_error hact, actAll_cons_error hact]
          · rw [actAll_cons_ok hact, actAll_cons_ok hact, ih]

/-- Runs that differ in reports only end alike, with the same output. -/
theorem Session.run_sameUpTo {σ ω α : Type} [Sink σ ω] {m m' : Gen α} {S S' : Setting}
    (hm : m.Propagates) (hm' : m'.Propagates) (h : Gen.SameUpTo Action.isReport S S' m m')
    (s : Session σ ω) :
    (run S' m' s).1 = (run S m s).1 ∧ (run S' m' s).2.output = (run S m s).2.output := by
  obtain ⟨hresult, -, hrequests⟩ := h s.frame
  have hacts : Output.actAll ((m' S' s.frame).requests.map Request.action) s.output =
      Output.actAll ((m S s.frame).requests.map Request.action) s.output := by
    rw [← Output.actAll_filter, ← Output.actAll_filter ((m S s.frame).requests.map _),
      List.filter_map, List.filter_map]
    exact congrArg (fun rs => Output.actAll (rs.map Request.action) s.output) hrequests
  obtain ⟨houtput, hend⟩ := run_output hm S s
  obtain ⟨houtput', hend'⟩ := run_output hm' S' s
  rw [hend, hend', houtput, houtput', hacts, Dialogue.result, hresult]
  exact ⟨rfl, rfl⟩

/-- Whether colours are used and whether progress is reported makes no difference to the
    result of a run and to what it writes, if no name of the program has an escape
    character. -/
theorem colors_stay_outside {σ ω : Type} [Sink σ ω] (symbols : SymbolTable) (oracle : Oracle)
    (strip : String → String) (hstrip : Text.DeletesColors strip)
    (debug verbose verbose' colored colored' : Bool) (program : Program)
    (hnames : ∀ name ∈ program.names, Plain name) (sink : σ) :
    (generate ⟨symbols, oracle, ⟨debug, verbose', colored', strip⟩⟩ program sink).1 =
        (generate ⟨symbols, oracle, ⟨debug, verbose, colored, strip⟩⟩ program sink).1 ∧
      (generate ⟨symbols, oracle, ⟨debug, verbose', colored', strip⟩⟩ program sink).2.output =
        (generate ⟨symbols, oracle, ⟨debug, verbose, colored, strip⟩⟩ program sink).2.output := by
  have hreport : ∀ word text name, Gen.SameUpTo Action.isReport
      ⟨symbols, oracle, ⟨debug, verbose, colored, strip⟩⟩
      ⟨symbols, oracle, ⟨debug, verbose', colored', strip⟩⟩
      (Gen.report word text name) (Gen.report word text name) := by
    intro word text name f
    cases verbose <;> cases verbose' <;> exact ⟨rfl, rfl, rfl⟩
  have hsame := (Rewriting.painted symbols oracle hstrip debug verbose verbose' colored
    colored').lower_program hreport program hnames
  rw [program.mapExprs_id] at hsame
  exact Session.run_sameUpTo program.propagates_lower program.propagates_lower hsame (.start sink)

/-- A program with a tabulator in a name, of which the last statement cannot be lowered. -/
def tabbedProgram : Program where
  structs := [⟨"Pair", [⟨"left", .int, none⟩]⟩]
  body := [.declare "a\tb" (.struct "Pair") none, .display (.binary .equal (.int 1) (.int (-2))),
    .assign (.field (.ident "a\tb") "left") (.int 3)]

theorem colors_stay_outside_tabbedProgram :
    (∀ name ∈ tabbedProgram.names, Plain name) ∧
      (generate ⟨.ofProgram tabbedProgram, .constant .int, ⟨true, true, true, Text.strip⟩⟩
          tabbedProgram Memory.empty).1 =
        (generate ⟨.ofProgram tabbedProgram, .constant .int, ⟨true, false, false, Text.strip⟩⟩
          tabbedProgram Memory.empty).1 ∧
      (generate ⟨.ofProgram tabbedProgram, .constant .int, ⟨true, true, true, Text.strip⟩⟩
          tabbedProgram Memory.empty).2.output =
        (generate ⟨.ofProgram tabbedProgram, .constant .int, ⟨true, false, false, Text.strip⟩⟩
          tabbedProgram Memory.empty).2.output :=
  ⟨by decide, colors_stay_outside _ _ Text.strip Text.strip_deletesColors true false true false true
    tabbedProgram (by decide) Memory.empty⟩

end JasminGen
