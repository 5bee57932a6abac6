/-
  JasminGen.Proofs.Labels

  Labels over a whole run. Every construct with jumps takes two labels, declares both
  and branches to each of them once, so the labels of a run are numbered without gaps,
  and all jumps go forward but the ones that close loops.

  Main definitions: `Program.labelCount`, `declared`, `targets`, `Directed`. Main
  result: `labels_of_run`.
-/

import JasminGen.Compile
import JasminGen.Proofs.Memory
import Mathlib.Algebra.GroupWithZero.Nat

namespace JasminGen

-- ============================================================================
-- How many labels a construct takes
-- ============================================================================

/-- Every operator but the arithmetic ones is lowered to jumps. -/
def BinaryOp.labelCount : BinaryOp → Nat
  | .arith _ => 0
  | .order _ | .logic _ | .equal => 2

mutual

/-- The number of labels that lowering an expression takes. -/
def Expr.labelCount : Expr → Nat
  | .int _ | .bool _ | .ident _ => 0
  | .group e | .unary _ e | .size e | .field e _ => e.labelCount
  | .binary op l r => op.labelCount + l.labelCount + r.labelCount
  | .index l r | .append l r => l.labelCount + r.labelCount
  | .call target args => target.labelCount + Expr.labelCountAll args

def Expr.labelCountAll : List Expr → Nat
  | [] => 0
  | e :: rest => e.labelCount + Expr.labelCountAll rest

end

mutual

/-- The number of labels that lowering a statement takes. -/
def Stmt.labelCount : Stmt → Nat
  | .block body => Stmt.labelCountAll body
  | .declare _ _ none | .ret none => 0
  | .declare _ _ (some e) | .ret (some e) | .display e | .size e => e.labelCount
  | .assign l r | .append l r => l.labelCount + r.labelCount
  | .cond test positive none => 2 + test.labelCount + positive.labelCount
  | .cond test positive (some negative) =>
    2 + test.labelCount + positive.labelCount + negative.labelCount
  | .loop count body => 2 + count.labelCount + body.labelCount
  | .call target args => target.labelCount + Expr.labelCountAll args

def Stmt.labelCountAll : List Stmt → Nat
  | [] => 0
  | s :: rest => s.labelCount + Stmt.labelCountAll rest

end

mutual

/-- The number of loops in a statement. -/
def Stmt.loopCount : Stmt → Nat
  | .block body => Stmt.loopCountAll body
  | .cond _ positive none => positive.loopCount
  | .cond _ positive (some negative) => positive.loopCount + negative.loopCount
  | .loop _ body => 1 + body.loopCount
  | .declare _ _ _ | .assign _ _ | .call _ _ | .ret _ | .display _ | .append _ _ | .size _ => 0

def Stmt.loopCountAll : List Stmt → Nat
  | [] => 0
  | s :: rest => s.loopCount + Stmt.loopCountAll rest

end

def FieldDef.labelCount (field : FieldDef) : Nat :=
  (field.value.map Expr.labelCount).getD 0

def Origin.labelCount : Origin → Nat
  | .constructor s => (s.fields.map FieldDef.labelCount).sum
  | .entry => 0
  | .body ss => Stmt.labelCountAll ss
  | .function f => Stmt.labelCountAll f.body

def Origin.loopCount : Origin → Nat
  | .constructor _ | .entry => 0
  | .body ss => Stmt.loopCountAll ss
  | .function f => Stmt.loopCountAll f.body

/-- The number of labels that a run on a program takes. -/
def Program.labelCount (program : Program) : Nat :=
  (program.origins.map Origin.labelCount).sum

def ExprTask.labelCount : ExprTask → Nat
  | .one e => e.labelCount
  | .args es => Expr.labelCountAll es

def StmtTask.labelCount : StmtTask → Nat
  | .one s => s.labelCount
  | .many ss => Stmt.labelCountAll ss

def StmtTask.loopCount : StmtTask → Nat
  | .one s => s.loopCount
  | .many ss => Stmt.loopCountAll ss

-- ============================================================================
-- Labels by number
-- ============================================================================

/-- The label that is taken `k` labels after this one. -/
def Label.advance (l : Label) (k : Nat) : Label := ⟨l.number + UInt32.ofNat k⟩

@[simp] theorem Label.advance_zero (l : Label) : l.advance 0 = l := by
  exact congrArg Label.mk (UInt32.add_zero l.number)

@[simp] theorem Label.next_eq_advance (l : Label) : l.next = l.advance 1 := rfl

@[simp] theorem Label.advance_advance (l : Label) (j k : Nat) :
    (l.advance j).advance k = l.advance (j + k) := by
  rw [advance, advance, advance, UInt32.add_assoc, UInt32.ofNat_add]

/-- The `count` labels from this one on. -/
def labelsFrom (l : Label) (count : Nat) : List Label :=
  (List.range count).map l.advance

@[simp] theorem labelsFrom_zero (l : Label) : labelsFrom l 0 = [] := rfl

@[simp] theorem labelsFrom_two (l : Label) : labelsFrom l 2 = [l, l.advance 1] := by
  rw [labelsFrom, List.range_succ, List.range_one, List.singleton_append, List.map_cons,
    Label.advance_zero, List.map_singleton]

theorem labelsFrom_add (l : Label) (count more : Nat) :
    labelsFrom l (count + more) = labelsFrom l count ++ labelsFrom (l.advance count) more := by
  rw [labelsFrom, labelsFrom, labelsFrom, List.range_add, List.map_append, List.map_map]
  congr 1
  apply List.map_congr_left
  intro k _
  exact (Label.advance_advance l count k).symm

/-- The labels of a run start with the one of number zero. -/
theorem Label.zero_advance_toNat {k : Nat} (h : k < UInt32.size) :
    ((⟨0⟩ : Label).advance k).number.toNat = k := by
  rw [advance, UInt32.zero_add]
  exact UInt32.toNat_ofNat_of_lt h

/-- The names of the first `n` labels. -/
def labelTexts (n : Nat) : List String :=
  (List.range n).map fun k => "Label_" ++ toString k

theorem labelsFrom_zero_text {count : Nat} (h : count ≤ UInt32.size) :
    (labelsFrom ⟨0⟩ count).map Label.text = labelTexts count := by
  rw [labelsFrom, List.map_map]
  apply List.map_congr_left
  intro k hk
  rw [Function.comp_apply, Label.text, Label.zero_advance_toNat]
  exact Nat.lt_of_lt_of_le (List.mem_range.mp hk) h

/-- Labels do not repeat before their numbers do. -/
theorem labelsFrom_nodup {l : Label} {count : Nat} (h : count ≤ UInt32.size) :
    (labelsFrom l count).Nodup := by
  rw [labelsFrom, List.Nodup, List.pairwise_map]
  refine List.Pairwise.imp_of_mem ?_ List.pairwise_lt_range
  intro j k hj hk hlt heq
  rw [List.mem_range] at hj hk
  have hnumber : UInt32.ofNat j = UInt32.ofNat k :=
    (UInt32.add_right_inj l.number).mp (congrArg Label.number heq)
  have hj' : (UInt32.ofNat j).toNat = j := UInt32.toNat_ofNat_of_lt (by omega)
  have hk' : (UInt32.ofNat k).toNat = k := UInt32.toNat_ofNat_of_lt (by omega)
  rw [← hj', ← hk', hnumber] at hlt
  exact Nat.lt_irrefl _ hlt

-- ============================================================================
-- Labels in code
-- ============================================================================

/-- A jump of the code: where to, and whether it is the one that closes a loop. -/
structure Jump where
  target : Label
  closesLoop : Bool

def Instr.jump? : Instr → Option Jump
  | .branch condition l => some ⟨l, condition = .ifgt⟩
  | .goto l => some ⟨l, false⟩
  | _ => none

def Code.jump? : Code → Option Jump
  | .instr i => i.jump?
  | _ => none

def Code.declared? : Code → Option Label
  | .label l => some l
  | _ => none

/-- The labels that code declares, in order. -/
def declared (code : List Code) : List Label :=
  code.filterMap Code.declared?

/-- The jumps of code, in order. -/
def jumps (code : List Code) : List Jump :=
  code.filterMap Code.jump?

section Simp

@[simp] theorem declared_nil : declared [] = [] := rfl

@[simp] theorem declared_append (c d : List Code) :
    declared (c ++ d) = declared c ++ declared d :=
  List.filterMap_append

@[simp] theorem declared_cons_instr (i : Instr) (c : List Code) :
    declared (.instr i :: c) = declared c := rfl

@[simp] theorem declared_cons_label (l : Label) (c : List Code) :
    declared (.label l :: c) = l :: declared c := rfl

@[simp] theorem declared_map_instr (is : List Instr) : declared (is.map Code.instr) = [] := by
  induction is with
  | nil => rfl
  | cons i rest ih => rw [List.map_cons, declared_cons_instr, ih]

@[simp] theorem jumps_nil : jumps [] = [] := rfl

@[simp] theorem jumps_append (c d : List Code) : jumps (c ++ d) = jumps c ++ jumps d :=
  List.filterMap_append

@[simp] theorem jumps_cons_instr (i : Instr) (c : List Code) :
    jumps (.instr i :: c) = i.jump?.toList ++ jumps c := by
  rw [jumps, List.filterMap_cons, Code.jump?]
  cases i.jump? <;> rfl

@[simp] theorem jumps_cons_label (l : Label) (c : List Code) :
    jumps (.label l :: c) = jumps c := rfl

@[simp] theorem Instr.jump?_branch (b : Branch) (l : Label) :
    (Instr.branch b l).jump? = some ⟨l, b = .ifgt⟩ := rfl

@[simp] theorem Instr.jump?_goto (l : Label) : (Instr.goto l).jump? = some ⟨l, false⟩ := rfl

@[simp] theorem Instr.jump?_invoke (m : Method) : (Instr.invoke m).jump? = none := rfl

@[simp] theorem ArithOp.instr_jump? (op : ArithOp) : op.instr.jump? = none := by
  cases op <;> rfl

@[simp] theorem LogicOp.decided_jump? (op : LogicOp) : op.decided.jump? = none := by
  cases op <;> rfl

@[simp] theorem narrowing_jump? (result : Ty) : (narrowing result).jump? = none := by
  unfold narrowing
  cases result.className? <;> rfl

@[simp] theorem OrderOp.negated_ne_ifgt (op : OrderOp) : op.negated ≠ .ifgt := by
  cases op <;> decide

@[simp] theorem LogicOp.skip_ne_ifgt (op : LogicOp) : op.skip ≠ .ifgt := by
  cases op <;> decide

end Simp

-- ============================================================================
-- Where jumps go
-- ============================================================================

/-- A jump is right at a place with the labels `before` declared before it and those of
    `after` declared after it: it closes a loop and goes back, or it goes forward. -/
def Jump.Directed (before after : Label → Prop) (j : Jump) : Prop :=
  if j.closesLoop then before j.target else after j.target

/-- All jumps of the code are right, if the labels `before` are declared before it and
    those of `after` after it. -/
def Directed (before after : Label → Prop) : List Code → Prop
  | [] => True
  | c :: rest =>
    (∀ j, c.jump? = some j → j.Directed before fun l => l ∈ declared rest ∨ after l) ∧
      Directed (fun l => before l ∨ c.declared? = some l) after rest

@[simp] theorem directed_nil (before after : Label → Prop) : Directed before after [] := trivial

@[simp] theorem directed_cons_instr {before after : Label → Prop} {i : Instr} {c : List Code} :
    Directed before after (.instr i :: c) ↔
      (∀ j, i.jump? = some j → j.Directed before fun l => l ∈ declared c ∨ after l) ∧
        Directed before after c := by
  simp [Directed, Code.jump?, Code.declared?]

@[simp] theorem directed_cons_label {before after : Label → Prop} {l : Label} {c : List Code} :
    Directed before after (.label l :: c) ↔
      Directed (fun k => before k ∨ l = k) after c := by
  simp [Directed, Code.jump?, Code.declared?]

@[simp] theorem directed_append {before after : Label → Prop} {c d : List Code} :
    Directed before after (c ++ d) ↔
      Directed before (fun l => l ∈ declared d ∨ after l) c ∧
        Directed (fun l => before l ∨ l ∈ declared c) after d := by
  induction c generalizing before with
  | nil => simp
  | cons x rest ih =>
      have hdeclared : ∀ l, l ∈ declared (x :: rest) ↔ x.declared? = some l ∨ l ∈ declared rest := by
        intro l
        cases x <;> simp [declared, Code.declared?, eq_comm]
      simp only [List.cons_append, Directed, ih, declared_append, List.mem_append, hdeclared,
        or_assoc, and_assoc]

theorem mem_declared {l : Label} {code : List Code} :
    l ∈ declared code ↔ ∃ j : Nat, code[j]? = some (.label l) := by
  rw [declared, List.mem_filterMap]
  constructor
  · rintro ⟨c, hc, hl⟩
    obtain ⟨j, hj⟩ := List.mem_iff_getElem?.mp hc
    cases c with
    | label k =>
        obtain rfl : k = l := Option.some.inj hl
        exact ⟨j, hj⟩
    | _ => cases hl
  · rintro ⟨j, hj⟩
    exact ⟨.label l, List.mem_of_getElem? hj, rfl⟩

/-- Where the label of a jump is declared, seen from the place of the jump. -/
theorem Directed.place {code : List Code} {before after : Label → Prop} {i : Nat} {c : Code}
    {jump : Jump} (h : Directed before after code) (hi : code[i]? = some c)
    (hc : c.jump? = some jump) :
    if jump.closesLoop then before jump.target ∨ ∃ j, j < i ∧ code[j]? = some (.label jump.target)
    else (∃ j, i < j ∧ code[j]? = some (.label jump.target)) ∨ after jump.target := by
  induction code generalizing before i with
  | nil => simp at hi
  | cons x rest ih =>
      obtain ⟨hx, hrest⟩ := h
      cases i with
      | zero =>
          obtain rfl : x = c := by simpa using hi
          have hjump := hx jump hc
          unfold Jump.Directed at hjump
          split
          · next hcloses =>
              rw [if_pos hcloses] at hjump
              exact .inl hjump
          · next hcloses =>
              rw [if_neg hcloses, mem_declared] at hjump
              exact hjump.imp_left fun ⟨j, hj⟩ => ⟨j + 1, by omega, by simpa using hj⟩
      | succ i =>
          have hjump := ih hrest (by simpa using hi)
          split
          · next hcloses =>
              rw [if_pos hcloses] at hjump
              rcases hjump with (hbefore | hhead) | ⟨j, hj, hat⟩
              · exact .inl hbefore
              · refine .inr ⟨0, by omega, ?_⟩
                cases x with
                | label l => simpa [Code.declared?] using hhead
                | _ => cases hhead
              · exact .inr ⟨j + 1, by omega, by simpa using hat⟩
          · next hcloses =>
              rw [if_neg hcloses] at hjump
              exact hjump.imp_left fun ⟨j, hj, hat⟩ => ⟨j + 1, by omega, by simpa using hat⟩

-- ============================================================================
-- Code that uses its labels once
-- ============================================================================

/-- Instructions that do not jump. -/
def Straight (is : List Instr) : Prop :=
  ∀ i ∈ is, i.jump? = none

@[simp] theorem straight_nil : Straight [] := by
  simp [Straight]

@[simp] theorem straight_cons {i : Instr} {is : List Instr} :
    Straight (i :: is) ↔ i.jump? = none ∧ Straight is := by
  simp [Straight]

theorem Straight.jumps {is : List Instr} (h : Straight is) : jumps (is.map Code.instr) = [] := by
  rw [JasminGen.jumps, List.filterMap_eq_nil_iff]
  intro c hc
  obtain ⟨i, hi, rfl⟩ := List.mem_map.mp hc
  exact h i hi

theorem Straight.directed {is : List Instr} (h : Straight is) (before after : Label → Prop) :
    Directed before after (is.map Code.instr) := by
  induction is with
  | nil => trivial
  | cons i rest ih =>
      obtain ⟨hi, hrest⟩ := straight_cons.mp h
      rw [List.map_cons, directed_cons_instr]
      refine ⟨?_, ih hrest⟩
      intro j hj
      rw [hi] at hj
      cases hj

/-- `Labelled l count loops code`: the code declares each of the `count` labels from
    `l` on once and jumps to it once, `loops` of its jumps close a loop, and it has no
    other declarations and jumps. -/
structure Labelled (l : Label) (count loops : Nat) (code : List Code) : Prop where
  declared : ∀ k, (declared code).count k = (labelsFrom l count).count k
  targets : ∀ k, ((jumps code).map Jump.target).count k = (labelsFrom l count).count k
  loops : (jumps code).countP Jump.closesLoop = loops
  directed : ∀ before after, Directed before after code

namespace Labelled

variable {l : Label} {j k m n : Nat} {c d : List Code}

/-- Labels are declared once, as long as their numbers do not start again. -/
theorem declared_nodup (h : Labelled l j m c) (hj : j ≤ UInt32.size) :
    (JasminGen.declared c).Nodup := by
  have hperm : (JasminGen.declared c).Perm (labelsFrom l j) := List.perm_iff_count.mpr h.declared
  exact hperm.nodup_iff.mpr (labelsFrom_nodup hj)

/-- The label of a jump is declared in the same code. -/
theorem declares_target {code : List Code} {i : Nat} {x : Code} {jump : Jump}
    (h : Labelled l j m code) (hi : code[i]? = some x) (hx : x.jump? = some jump) :
    ∃ k : Nat, code[k]? = some (.label jump.target) := by
  have hplace := (h.directed (fun _ => False) fun _ => False).place hi hx
  split at hplace
  · obtain ⟨k, -, hk⟩ := hplace.resolve_left id
    exact ⟨k, hk⟩
  · obtain ⟨k, -, hk⟩ := hplace.resolve_right id
    exact ⟨k, hk⟩

theorem nil : Labelled l 0 0 [] :=
  ⟨fun _ => rfl, fun _ => rfl, rfl, fun _ _ => trivial⟩

/-- Code in a row, with straight code around it. -/
theorem seq (first between last : List Instr) (hfirst : Straight first)
    (hbetween : Straight between) (hlast : Straight last) (hc : Labelled l j m c)
    (hd : Labelled (l.advance j) k n d) :
    Labelled l (j + k) (m + n)
      (first.map Code.instr ++ c ++ between.map Code.instr ++ d ++ last.map Code.instr) where
  declared x := by
    simp [hc.declared, hd.declared, labelsFrom_add]
  targets x := by
    simp [hfirst.jumps, hbetween.jumps, hlast.jumps, hc.targets, hd.targets, labelsFrom_add]
  loops := by
    simp [hfirst.jumps, hbetween.jumps, hlast.jumps, hc.loops, hd.loops]
  directed before after := by
    simp [hfirst.directed, hbetween.directed, hlast.directed, hc.directed, hd.directed]

theorem append (hc : Labelled l j m c) (hd : Labelled (l.advance j) k n d) :
    Labelled l (j + k) (m + n) (c ++ d) := by
  simpa using seq [] [] [] straight_nil straight_nil straight_nil hc hd

/-- Straight code around other code. -/
theorem around (first last : List Instr) (hfirst : Straight first) (hlast : Straight last)
    (hc : Labelled l j m c) :
    Labelled l j m (first.map Code.instr ++ c ++ last.map Code.instr) := by
  simpa using seq first [] last hfirst straight_nil hlast hc nil

theorem straight (is : List Instr) (h : Straight is) : Labelled l 0 0 (is.map Code.instr) := by
  simpa using around is [] h straight_nil nil

theorem condition {negated : Branch} (h : negated ≠ .ifgt) :
    Labelled l 2 0 (Fragment.codeAll (conditionParts negated l l.next)) where
  declared x := by simp [conditionParts]
  targets x := by simp [conditionParts, Instr.jump?]
  loops := by simp [conditionParts, Instr.jump?, h]
  directed before after := by simp [conditionParts, Instr.jump?, Jump.Directed, h]

/-- A comparison: its operands, each with the same straight code after it, and the
    boolean that is made from them. Its two labels are taken last. -/
theorem comparison (is : List Instr) (negated : Branch) (his : Straight is)
    (hnegated : negated ≠ .ifgt) (hc : Labelled l j 0 c) (hd : Labelled (l.advance j) k 0 d) :
    Labelled l (2 + j + k) 0 (c ++ is.map Code.instr ++ d ++ is.map Code.instr ++
      Fragment.codeAll (conditionParts negated (l.advance (j + k)) (l.advance (j + k)).next)) := by
  have hseq := seq [] is is straight_nil his his hc hd
  have hall := hseq.append (condition hnegated)
  rw [show j + k + 2 = 2 + j + k by omega] at hall
  simpa using hall

theorem logic (op : LogicOp) (hc : Labelled (l.advance 2) j m c)
    (hd : Labelled (l.advance (2 + j)) k n d) :
    Labelled l (2 + j + k) (m + n) (c ++ .instr (.invoke .booleanBooleanValue) ::
      .instr (.branch op.skip l) :: (d ++ [.instr (.invoke .booleanBooleanValue),
        .instr (.goto l.next), .label l, .instr op.decided, .label l.next,
        .instr (.invoke .booleanValueOf)])) where
  declared x := by
    simp only [declared_append, declared_cons_instr, declared_cons_label, declared_nil,
      List.count_append, hc.declared, hd.declared, labelsFrom_add, labelsFrom_two,
      Label.next_eq_advance]
    omega
  targets x := by
    simp [hc.targets, hd.targets, labelsFrom_add, List.count_cons]
    omega
  loops := by
    simp [hc.loops, hd.loops]
  directed before after := by
    simp [hc.directed, hd.directed, Jump.Directed]

theorem cond {u i : Nat} {e : List Code} (hc : Labelled (l.advance 2) j m c)
    (hd : Labelled (l.advance (2 + j)) k n d) (he : Labelled (l.advance (2 + j + k)) u i e) :
    Labelled l (2 + j + k + u) (m + n + i) (c ++ .instr (.invoke .booleanBooleanValue) ::
      .instr (.branch .ifeq l) :: (d ++ .instr (.goto l.next) :: .label l :: .instr .nop ::
        (e ++ [.label l.next, .instr .nop]))) where
  declared x := by
    simp only [declared_append, declared_cons_instr, declared_cons_label, declared_nil,
      List.count_append, List.count_cons, hc.declared, hd.declared, he.declared, labelsFrom_add,
      labelsFrom_two, Label.next_eq_advance]
    omega
  targets x := by
    simp [hc.targets, hd.targets, he.targets, labelsFrom_add, List.count_cons, Instr.jump?]
    omega
  loops := by
    simp [hc.loops, hd.loops, he.loops, Instr.jump?, Nat.add_assoc]
  directed before after := by
    simp [hc.directed, hd.directed, he.directed, Jump.Directed, Instr.jump?]

theorem loop (slot : Nat) (hc : Labelled (l.advance 2) j m c)
    (hd : Labelled (l.advance (2 + j)) k n d) :
    Labelled l (2 + j + k) (m + (1 + n)) (c ++ .instr (.invoke .integerIntValue) ::
      .instr (.istore slot) :: .instr (.goto l.next) :: .label l ::
        (d ++ [.instr (.decrement slot), .label l.next, .instr (.iload slot),
          .instr (.branch .ifgt l)])) where
  declared x := by
    simp only [declared_append, declared_cons_instr, declared_cons_label, declared_nil,
      List.count_append, List.count_cons, hc.declared, hd.declared, labelsFrom_add,
      labelsFrom_two, Label.next_eq_advance]
    omega
  targets x := by
    simp [hc.targets, hd.targets, labelsFrom_add, List.count_cons, Instr.jump?]
    omega
  loops := by
    simp [hc.loops, hd.loops, Instr.jump?]
    omega
  directed before after := by
    simp [hc.directed, hd.directed, Jump.Directed, Instr.jump?]

end Labelled

-- ============================================================================
-- The labels of expressions
-- ============================================================================

section Lowered

variable {S : Setting}

theorem ExprLowered.nextLabel {t : ExprTask} {f f' : Frame} {parts : List Fragment}
    (h : ExprLowered S t f parts f') : f'.nextLabel = f.nextLabel.advance t.labelCount := by
  induction h with
  | «variable» _ hs =>
      rw [hs.nextLabel]
      exact (Label.advance_zero _).symm
  | order _ _ ihl ihr | equalValues _ _ _ _ ihl ihr | equalReferences _ _ _ _ ihl ihr =>
      -- the two labels are taken after those of the operands
      rw [Frame.afterPair_nextLabel, ihr, ihl]
      simp only [ExprTask.labelCount, Expr.labelCount, BinaryOp.labelCount, Label.next_eq_advance,
        Label.advance_advance]
      congr 1
      omega
  | _ =>
      simp_all [ExprTask.labelCount, Expr.labelCount, Expr.labelCountAll, BinaryOp.labelCount,
        Nat.add_assoc]

theorem ExprLowered.labelled {t : ExprTask} {f f' : Frame} {parts : List Fragment}
    (h : ExprLowered S t f parts f') :
    Labelled f.nextLabel t.labelCount 0 (Fragment.codeAll parts) := by
  induction h with
  | @int f n =>
      exact .straight [.ldcInt n, .invoke .integerValueOf] (by simp [Instr.jump?])
  | @bool f b =>
      exact .straight [if b then .iconst1 else .iconst0, .invoke .booleanValueOf]
        (by cases b <;> simp [Instr.jump?])
  | @function f name =>
      exact .straight [.new fptrClass, .dup, .aload receiverSlot, .ldcText name,
        .invoke .fptrInit] (by simp [Instr.jump?])
  | @«variable» f f' name slot =>
      exact .straight [.aload slot] (by simp [Instr.jump?])
  | group _ ih =>
      simpa [ExprTask.labelCount, Expr.labelCount] using ih
  | @arith f f₁ f' op l r pl pr hl _ ihl ihr =>
      rw [hl.nextLabel] at ihr
      have hcode := Labelled.seq [] [.invoke .integerIntValue]
        [.invoke .integerIntValue, op.instr, .invoke .integerValueOf] (by simp) (by simp) (by simp)
        ihl ihr
      simpa [ExprTask.labelCount, Expr.labelCount, BinaryOp.labelCount] using hcode
  | @order f f₁ f₂ op l r pl pr hl hr ihl ihr =>
      rw [hl.nextLabel] at ihr
      have hcode := Labelled.comparison [.invoke .integerIntValue] op.negated (by simp) (by simp)
        ihl ihr
      simpa [ExprTask.labelCount, Expr.labelCount, BinaryOp.labelCount, hr.nextLabel,
        hl.nextLabel] using hcode
  | @logic f f₁ f' op l r pl pr hl hr ihl ihr =>
      rw [hl.nextLabel] at ihr
      simp only [Frame.afterPair_nextLabel, Label.next_eq_advance, Label.advance_advance] at ihl ihr
      simpa [ExprTask.labelCount, Expr.labelCount, BinaryOp.labelCount]
        using Labelled.logic op ihl ihr
  | @equalValues f f₁ f₂ l r pl pr ty m _ _ hl hr ihl ihr =>
      rw [hl.nextLabel] at ihr
      have hcode := Labelled.comparison [.invoke m] .ifIcmpne (by simp) (by simp) ihl ihr
      simpa [ExprTask.labelCount, Expr.labelCount, BinaryOp.labelCount, hr.nextLabel,
        hl.nextLabel] using hcode
  | equalReferences _ _ hl hr ihl ihr =>
      rw [hl.nextLabel] at ihr
      have hcode := Labelled.comparison [] .ifAcmpne (by simp) (by simp) ihl ihr
      simpa [ExprTask.labelCount, Expr.labelCount, BinaryOp.labelCount, hr.nextLabel,
        hl.nextLabel] using hcode
  | not _ ih =>
      have hcode := Labelled.around [] [.invoke .booleanBooleanValue, .iconst1, .ixor,
        .invoke .booleanValueOf] (by simp) (by simp [Instr.jump?]) ih
      simpa [ExprTask.labelCount, Expr.labelCount] using hcode
  | neg _ ih =>
      have hcode := Labelled.around [] [.invoke .integerIntValue, .ineg, .invoke .integerValueOf]
        (by simp) (by simp [Instr.jump?]) ih
      simpa [ExprTask.labelCount, Expr.labelCount] using hcode
  | @index f f₁ f' l r pl pr ty name _ _ hl _ ihl ihr =>
      rw [hl.nextLabel] at ihr
      have hcode := Labelled.seq [] [] [.invoke .integerIntValue, .invoke .listGetElement,
        .checkcast name] (by simp) (by simp) (by simp [Instr.jump?]) ihl ihr
      simpa [ExprTask.labelCount, Expr.labelCount] using hcode
  | append hl _ ihl ihr =>
      rw [hl.nextLabel] at ihr
      have hcode := Labelled.seq [] [.dup] [.invoke .listAddElement] (by simp)
        (by simp [Instr.jump?]) (by simp) ihl ihr
      simpa [ExprTask.labelCount, Expr.labelCount] using hcode
  | size _ ih =>
      have hcode := Labelled.around [] [.invoke .listGetSize, .invoke .integerValueOf] (by simp)
        (by simp) ih
      simpa [ExprTask.labelCount, Expr.labelCount] using hcode
  | @call f f₁ f' target args pt pa params result _ ht _ iht iha =>
      rw [ht.nextLabel] at iha
      have hcode := Labelled.seq [] [.new arrayListClass, .dup, .invoke .arrayListInit]
        [.invoke .fptrInvoke, narrowing result] (by simp) (by simp [Instr.jump?]) (by simp) iht iha
      simpa [ExprTask.labelCount, Expr.labelCount] using hcode
  | argsNil => exact .nil
  | argsCopied _ he _ ihe iha =>
      rw [he.nextLabel] at iha
      have hcode := Labelled.seq [.dup, .new listClass, .dup] [.invoke .listCopy,
        .invoke .arrayListAdd, .pop] [] (by simp [Instr.jump?]) (by simp [Instr.jump?]) (by simp)
        ihe iha
      simpa [ExprTask.labelCount, Expr.labelCountAll] using hcode
  | argsPassed _ _ he _ ihe iha =>
      rw [he.nextLabel] at iha
      have hcode := Labelled.seq [.dup] [.invoke .arrayListAdd, .pop] [] (by simp [Instr.jump?])
        (by simp [Instr.jump?]) (by simp) ihe iha
      simpa [ExprTask.labelCount, Expr.labelCountAll] using hcode

-- ============================================================================
-- The labels of statements
-- ============================================================================

theorem Stmt.labelCount_cond (test : Expr) (positive : Stmt) (negative : Option Stmt) :
    (Stmt.cond test positive negative).labelCount =
      2 + test.labelCount + positive.labelCount + Stmt.labelCountAll negative.toList := by
  cases negative <;> simp [Stmt.labelCount, Stmt.labelCountAll]

theorem Stmt.loopCount_cond (test : Expr) (positive : Stmt) (negative : Option Stmt) :
    (Stmt.cond test positive negative).loopCount =
      positive.loopCount + Stmt.loopCountAll negative.toList := by
  cases negative <;> simp [Stmt.loopCount, Stmt.loopCountAll]

theorem StmtLowered.nextLabel {t : StmtTask} {f f' : Frame} {parts : List Fragment}
    (h : StmtLowered S t f parts f') : f'.nextLabel = f.nextLabel.advance t.labelCount := by
  induction h with
  | block _ ih => rwa [StmtTask.labelCount, Stmt.labelCount]
  | declare he hs =>
      rw [hs.nextLabel, he.nextLabel]
      simp [StmtTask.labelCount, Stmt.labelCount, ExprTask.labelCount]
  | declareZero _ hs =>
      rw [hs.nextLabel]
      simp [StmtTask.labelCount, Stmt.labelCount]
  | assign he hs =>
      rw [hs.nextLabel, he.nextLabel]
      simp [StmtTask.labelCount, Stmt.labelCount, ExprTask.labelCount, Expr.labelCount]
  | cond ht _ _ ihp ihn =>
      rw [ihn, ihp, ht.nextLabel]
      simp [StmtTask.labelCount, Stmt.labelCount_cond, ExprTask.labelCount]
  | loop _ hc _ ih =>
      rw [ih, hc.nextLabel]
      simp [StmtTask.labelCount, Stmt.labelCount, ExprTask.labelCount]
  | call _ hc => exact hc.nextLabel
  | ret => exact (Label.advance_zero _).symm
  | retValue _ he => exact he.nextLabel
  | display _ _ _ he => exact he.nextLabel
  | append he => exact he.nextLabel
  | size he => exact he.nextLabel
  | nil => exact (Label.advance_zero _).symm
  | cons _ _ ih ihs =>
      rw [ihs, ih]
      simp [StmtTask.labelCount, Stmt.labelCountAll]

theorem ZeroCode.straight {id : ScopeId} {ty : Ty} {is : List Instr} (h : ZeroCode S id ty is) :
    Straight is := by
  cases h <;> simp [Instr.jump?]

theorem dropping_straight (ty : Ty) : Straight (dropping ty) := by
  unfold dropping
  split <;> simp [Instr.jump?]

/-- The code of a statement uses each label it takes once, and closes as many loops as
    the statement has. -/
theorem StmtLowered.labelled {t : StmtTask} {f f' : Frame} {parts : List Fragment}
    (h : StmtLowered S t f parts f') :
    Labelled f.nextLabel t.labelCount t.loopCount (Fragment.codeAll parts) := by
  induction h with
  | block _ ih => simpa [StmtTask.labelCount, StmtTask.loopCount, Stmt.labelCount, Stmt.loopCount]
      using ih
  | @declare f f₁ f' name ty e p slot he _ =>
      have hcode := Labelled.around [] [.astore slot] (by simp) (by simp [Instr.jump?]) he.labelled
      simpa [StmtTask.labelCount, StmtTask.loopCount, Stmt.labelCount, Stmt.loopCount,
        ExprTask.labelCount] using hcode
  | @declareZero f f' name ty is slot hz _ =>
      have hcode := Labelled.around (l := f.nextLabel) is [.astore slot] hz.straight
        (by simp [Instr.jump?]) .nil
      simpa [StmtTask.labelCount, StmtTask.loopCount, Stmt.labelCount, Stmt.loopCount] using hcode
  | @assign f f₁ f' name e p slot he _ =>
      have hcode := Labelled.around [] [.astore slot] (by simp) (by simp [Instr.jump?]) he.labelled
      simpa [StmtTask.labelCount, StmtTask.loopCount, Stmt.labelCount, Stmt.loopCount,
        ExprTask.labelCount, Expr.labelCount] using hcode
  | cond ht hp _ ihp ihn =>
      have htest := ht.labelled
      rw [hp.nextLabel] at ihn
      rw [ht.nextLabel] at ihp ihn
      simp only [Frame.afterPair_nextLabel, Label.next_eq_advance, Label.advance_advance]
        at htest ihp ihn
      simpa [StmtTask.labelCount, StmtTask.loopCount, Stmt.labelCount_cond, Stmt.loopCount_cond,
        ExprTask.labelCount] using Labelled.cond htest ihp ihn
  | @loop f f₁ f' count body pc pb _ hc _ ihb =>
      have hcount := hc.labelled
      rw [hc.nextLabel] at ihb
      simp only [Frame.afterPair_nextLabel, Frame.afterSlot_nextLabel, Label.next_eq_advance,
        Label.advance_advance] at hcount ihb
      simpa [StmtTask.labelCount, StmtTask.loopCount, Stmt.labelCount, Stmt.loopCount,
        ExprTask.labelCount] using Labelled.loop f.slots.next hcount ihb
  | @call f f' target args p ty _ hc =>
      have hcode := Labelled.around [] (dropping ty) (by simp) (dropping_straight ty) hc.labelled
      simpa [StmtTask.labelCount, StmtTask.loopCount, Stmt.labelCount, Stmt.loopCount,
        ExprTask.labelCount, Expr.labelCount] using hcode
  | @ret f =>
      exact .straight [.ret] (by simp [Instr.jump?])
  | @retValue f f' e p ty _ he =>
      have hcode := Labelled.around [] [if ty.isVoid then .ret else .areturn] (by simp)
        (by cases ty.isVoid <;> simp [Instr.jump?]) he.labelled
      simpa [StmtTask.labelCount, StmtTask.loopCount, Stmt.labelCount, Stmt.loopCount,
        ExprTask.labelCount] using hcode
  | @display f f' e p ty unboxer printer _ _ _ he =>
      have hcode := Labelled.around [.getSystemOut] [.invoke unboxer, .invoke printer]
        (by simp [Instr.jump?]) (by simp) he.labelled
      simpa [StmtTask.labelCount, StmtTask.loopCount, Stmt.labelCount, Stmt.loopCount,
        ExprTask.labelCount] using hcode
  | append he | size he =>
      have hcode := Labelled.around [] [.pop] (by simp) (by simp [Instr.jump?]) he.labelled
      simpa [StmtTask.labelCount, StmtTask.loopCount, Stmt.labelCount, Stmt.loopCount,
        ExprTask.labelCount, Expr.labelCount] using hcode
  | nil => exact .nil
  | cons hs _ ih ihs =>
      rw [hs.nextLabel] at ihs
      simpa [StmtTask.labelCount, StmtTask.loopCount, Stmt.labelCountAll, Stmt.loopCountAll]
        using ih.append ihs

-- ============================================================================
-- The labels of methods and programs
-- ============================================================================

theorem InitialLowered.labelled {field : FieldDef} {f f' : Frame} {p : List Fragment}
    (h : InitialLowered S field f p f') :
    f'.nextLabel = f.nextLabel.advance field.labelCount ∧
      Labelled f.nextLabel field.labelCount 0 (Fragment.codeAll p) := by
  cases h with
  | value he => exact ⟨he.nextLabel, by simpa [FieldDef.labelCount, ExprTask.labelCount]
      using he.labelled⟩
  | null =>
      exact ⟨(Label.advance_zero _).symm, .straight [.aconstNull] (by simp [Instr.jump?])⟩
  | zero _ hz =>
      refine ⟨(Label.advance_zero _).symm, ?_⟩
      rw [Fragment.codeAll_map_instr]
      exact .straight _ hz.straight

theorem FieldsLowered.labelled {className : String} {fields : List FieldDef} {f f' : Frame}
    {p : List Fragment} (h : FieldsLowered S className fields f p f') :
    f'.nextLabel = f.nextLabel.advance (fields.map FieldDef.labelCount).sum ∧
      Labelled f.nextLabel (fields.map FieldDef.labelCount).sum 0 (Fragment.codeAll p) := by
  induction h with
  | nil => exact ⟨(Label.advance_zero _).symm, .nil⟩
  | @cons f f₁ f' field rest p ps hi _ ih =>
      obtain ⟨hnext, hfirst⟩ := hi.labelled
      obtain ⟨hnext', hrest⟩ := ih
      rw [hnext] at hnext' hrest
      refine ⟨by simpa using hnext', ?_⟩
      have hcode := Labelled.seq [.aload receiverSlot]
        [.putfield className field.name field.ty] [] (by simp [Instr.jump?])
        (by simp [Instr.jump?]) (by simp) hfirst hrest
      simpa using hcode

theorem MethodLowered.labelled {o : Origin} {n n' : Label} {m : LoweredMethod}
    (h : MethodLowered S o n m n') :
    n' = n.advance o.labelCount ∧ Labelled n o.labelCount o.loopCount m.code.body := by
  have hsuper : Straight [.aload receiverSlot, .invoke .objectInit] := by simp [Instr.jump?]
  have hret : Straight [.ret] := by simp [Instr.jump?]
  cases h with
  | constructor _ hf =>
      obtain ⟨hnext, hfields⟩ := hf.labelled
      refine ⟨hnext, ?_⟩
      simpa [LoweredMethod.code, superParts, Origin.labelCount, Origin.loopCount]
        using Labelled.around _ _ hsuper hret hfields
  | entry =>
      refine ⟨(Label.advance_zero _).symm, ?_⟩
      simpa [LoweredMethod.code, Origin.labelCount, Origin.loopCount] using
        Labelled.straight (l := n) entryInstrs (by simp [entryInstrs, Instr.jump?])
  | body _ hb =>
      refine ⟨hb.nextLabel, ?_⟩
      simpa [LoweredMethod.code, superParts, Origin.labelCount, Origin.loopCount,
        StmtTask.labelCount, StmtTask.loopCount] using Labelled.around _ _ hsuper hret hb.labelled
  | @function fn id signature _ _ _ _ _ _ _ hb =>
      refine ⟨hb.nextLabel, ?_⟩
      have hlast : Straight (if signature.result.isVoid then [.ret] else []) := by
        split
        · exact hret
        · exact straight_nil
      have hcode := Labelled.around [] _ straight_nil hlast hb.labelled
      split at hcode <;> simp_all [LoweredMethod.code, Origin.labelCount, Origin.loopCount,
        StmtTask.labelCount, StmtTask.loopCount]

/-- Methods that are lowered one after the other take their labels in a row. -/
theorem MethodsLowered.labelled {os : List Origin} {n n' : Label} {ms : List LoweredMethod}
    (h : MethodsLowered S os n ms n') :
    n' = n.advance (os.map Origin.labelCount).sum ∧
      Labelled n (os.map Origin.labelCount).sum (os.map Origin.loopCount).sum
        (ms.flatMap fun m => m.code.body) := by
  induction h with
  | nil => exact ⟨(Label.advance_zero _).symm, .nil⟩
  | cons hm _ _ ih =>
      obtain ⟨hnext, hfirst⟩ := hm.labelled
      obtain ⟨hnext', hrest⟩ := ih
      rw [hnext] at hnext' hrest
      exact ⟨by simpa using hnext', by simpa using hfirst.append hrest⟩

theorem MethodsLowered.loops {os : List Origin} {n n' : Label} {ms : List LoweredMethod}
    (h : MethodsLowered S os n ms n') :
    ms.map (fun m => (jumps m.code.body).countP Jump.closesLoop) = os.map Origin.loopCount := by
  induction h with
  | nil => rfl
  | cons hm _ _ ih => rw [List.map_cons, List.map_cons, hm.labelled.2.loops, ih]

theorem MethodsLowered.directed {os : List Origin} {n n' : Label} {ms : List LoweredMethod}
    (h : MethodsLowered S os n ms n') :
    ∀ m ∈ ms, ∀ before after, Directed before after m.code.body := by
  induction h with
  | nil => simp
  | cons hm _ _ ih =>
      intro m hmem
      rcases List.mem_cons.mp hmem with rfl | hmem
      · exact hm.labelled.2.directed
      · exact ih m hmem

end Lowered

-- ============================================================================
-- The labels of a run
-- ============================================================================

theorem declared_consists {codes : List Code} {ms : List MethodCode} (h : Consists codes ms) :
    declared codes = ms.flatMap fun m => declared m.body := by
  apply h.filterMap_eq
  · intro c _ hlabel
    cases c with
    | label l => exact absurd rfl (hlabel l)
    | _ => rfl
  · simp [Code.declared?]

theorem jumps_consists {codes : List Code} {ms : List MethodCode} (h : Consists codes ms) :
    jumps codes = ms.flatMap fun m => jumps m.body := by
  apply h.filterMap_eq
  · intro c hinstr _
    cases c with
    | instr i => exact absurd rfl (hinstr i)
    | _ => rfl
  · simp [entryInstrs, Code.jump?, Instr.jump?]

theorem declared_flatMap {α : Type} (g : α → List Code) (xs : List α) :
    declared (xs.flatMap g) = xs.flatMap fun x => declared (g x) := by
  induction xs with
  | nil => rfl
  | cons x rest ih => rw [List.flatMap_cons, declared_append, ih, List.flatMap_cons]

theorem jumps_flatMap {α : Type} (g : α → List Code) (xs : List α) :
    jumps (xs.flatMap g) = xs.flatMap fun x => jumps (g x) := by
  induction xs with
  | nil => rfl
  | cons x rest ih => rw [List.flatMap_cons, jumps_append, ih, List.flatMap_cons]

/-- Labels that occur as often as the first ones of a run do are these, by name. -/
theorem perm_texts {count : Nat} {ls : List Label} (hcount : count ≤ UInt32.size)
    (h : ∀ k, ls.count k = (labelsFrom ⟨0⟩ count).count k) :
    (ls.map Label.text).Perm (labelTexts count) := by
  have hperm : ls.Perm (labelsFrom ⟨0⟩ count) := List.perm_iff_count.mpr h
  rw [← labelsFrom_zero_text hcount]
  exact hperm.map Label.text

/-- How code with `n` labels uses them; `loops` is the number of loops in each of its
    methods. -/
structure LabelDiscipline (codes : List Code) (n : Nat) (loops : List Nat) : Prop where
  /-- Each label is declared once. -/
  declared_once : ((declared codes).map Label.text).Perm (labelTexts n)
  /-- Each label is jumped to once. -/
  targeted_once : ((jumps codes).map fun j => j.target.text).Perm (labelTexts n)
  /-- Labels are declared inside of methods. -/
  declared_inside : declared codes = (methods codes).flatMap fun m => declared m.body
  /-- Jumps stand inside of methods. -/
  jumps_inside : jumps codes = (methods codes).flatMap fun m => jumps m.body
  /-- A jump stays in its method. It goes back if it closes a loop, and forward
      otherwise. -/
  place : ∀ m ∈ methods codes, ∀ (i : Nat) (c : Code) (jump : Jump),
    m.body[i]? = some c → c.jump? = some jump →
      ∃ j : Nat, m.body[j]? = some (.label jump.target) ∧ (j < i ↔ jump.closesLoop = true)
  /-- Each loop is closed by one jump. -/
  loops_closed : (methods codes).map (fun m => (jumps m.body).countP Jump.closesLoop) = loops

theorem MethodsLowered.labelDiscipline {S : Setting} {os : List Origin} {n' : Label}
    {ms : List LoweredMethod} {codes : List Code} (hms : MethodsLowered S os ⟨0⟩ ms n')
    (hcodes : Consists codes (ms.map LoweredMethod.code))
    (hcount : (os.map Origin.labelCount).sum ≤ UInt32.size) :
    LabelDiscipline codes (os.map Origin.labelCount).sum (os.map Origin.loopCount) := by
  have hlabelled := hms.labelled.2
  have hmethods : methods codes = ms.map LoweredMethod.code := hcodes.methods_eq
  have hdeclared : declared codes = declared (ms.flatMap fun m => m.code.body) := by
    rw [declared_flatMap, declared_consists hcodes, List.flatMap_map]
  have hjumps : jumps codes = jumps (ms.flatMap fun m => m.code.body) := by
    rw [jumps_flatMap, jumps_consists hcodes, List.flatMap_map]
  refine ⟨?_, ?_, ?_, ?_, ?_, ?_⟩
  · rw [hdeclared]
    exact perm_texts hcount hlabelled.declared
  · rw [hjumps]
    have hperm := perm_texts hcount hlabelled.targets
    rwa [List.map_map] at hperm
  · rw [hmethods, declared_consists hcodes]
  · rw [hmethods, jumps_consists hcodes]
  · intro m hm i c jump hi hc
    rw [hmethods, List.mem_map] at hm
    obtain ⟨lowered, hlowered, rfl⟩ := hm
    have hplace := (hms.directed lowered hlowered (fun _ => False) fun _ => False).place hi hc
    split at hplace
    · next hcloses =>
        obtain ⟨j, hj, hat⟩ := hplace.resolve_left id
        exact ⟨j, hat, fun _ => hcloses, fun _ => hj⟩
    · next hcloses =>
        obtain ⟨j, hj, hat⟩ := hplace.resolve_right id
        exact ⟨j, hat, fun hlt => absurd hlt (by omega), fun h => absurd h hcloses⟩
  · rw [hmethods, List.map_map]
    exact hms.loops

/-- Over all units of a run that takes `n` labels, these are `Label_0` to `Label_(n-1)`.
    Each of them is declared once and jumped to once, from the method it is declared
    in, and only the jumps that close loops go back, one for each loop. -/
theorem labels_of_run {σ ω : Type} [Sink σ ω] (setting : Setting) (program : Program) (sink : σ)
    (hrun : (generate setting program sink).1 = .ok ())
    (hcount : program.labelCount < UInt32.size) :
    (generate setting program sink).2.frame.nextLabel.number.toNat = program.labelCount ∧
      (∀ e, .emission e ∈ program.actions setting → ∃ t, e = .comment t) ∧
      LabelDiscipline (program.codes setting) program.labelCount
        (program.origins.map Origin.loopCount) := by
  obtain ⟨ms, hms, hcodes, hunits⟩ := Program.lower_methods (generate_emits hrun)
  refine ⟨?_, fun _ => hunits.comment_of_emission,
    hms.labelDiscipline hcodes (Nat.le_of_lt hcount)⟩
  rw [hms.labelled.1]
  exact Label.zero_advance_toNat hcount

/-- Two loops, one of them around a comparison in a condition. -/
def countingProgram : Program where
  body := [.declare "n" .int none,
    .loop (.int 2) (.cond (.binary (.order .lt) (.ident "n") (.int 5))
      (.display (.ident "n")) none)]
  functions := [⟨"wait", [⟨"k", .int⟩], .void, [.loop (.ident "k") (.block [])]⟩]

theorem labels_of_countingProgram :
    countingProgram.labelCount = 8 ∧
      LabelDiscipline (countingProgram.codes (.ofProgram countingProgram {})) 8 [0, 1, 1] :=
  ⟨rfl, (labels_of_run _ countingProgram Memory.empty (generate_memory_ok _ (by decide +kernel))
    (by decide)).2.2⟩

end JasminGen
