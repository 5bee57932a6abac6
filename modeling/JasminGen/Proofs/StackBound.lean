/-
  JasminGen.Proofs.StackBound

  How deep the operand stack of a method gets. Each construct needs a height that can be
  read off the source: an operand adds to what already lies on the stack, so the height of
  an expression grows with its nesting. Every depth that execution meets in a method is at
  most the height of what the method is made from. Nothing is assumed about the types of
  operands; a call without result leaves less on the stack than is allowed for.

  Depths are bounded place by place, reading the code once from start to end, with one bound
  for each label. A bound is never exact at a place, so it is not the depth of
  `stack_balance`: it only has to be at least what each predecessor leaves.

  Main definitions: `Bounded`, `Expr.height`, `Origin.stackNeed`. Main results:
  `Bounded.depth_le`, `MethodLowered.depth_le`.
-/

import JasminGen.Proofs.Balance
import JasminGen.Proofs.Symbols

namespace JasminGen

-- ============================================================================
-- Bounds along the code
-- ============================================================================

/-- `Bounded Λ cap d code d'`: if the depth is at most `d` before the code, it is at most `cap`
    at each place and at most `d'` after it, where `Λ` bounds the depths at labels. -/
inductive Bounded (Λ : Label → Nat) (cap : Nat) : Nat → List Code → Nat → Prop where
  | nil {d d' : Nat} : d ≤ d' → d' ≤ cap → Bounded Λ cap d [] d'
  | instr {d d₁ d' : Nat} {i : Instr} {rest : List Code} :
      d ≤ cap → (i.fallsThrough = true → d - i.pops + i.pushes ≤ d₁) →
      (∀ jump, i.jump? = some jump → d - i.pops + i.pushes ≤ Λ jump.target) →
      Bounded Λ cap d₁ rest d' → Bounded Λ cap d (.instr i :: rest) d'
  | label {d d' : Nat} {l : Label} {rest : List Code} :
      d ≤ Λ l → Λ l ≤ cap → Bounded Λ cap (Λ l) rest d' → Bounded Λ cap d (.label l :: rest) d'

/-- The greatest depth while instructions run in a row from the depth `b`. -/
def peak : List Instr → Nat → Nat
  | [], b => b
  | i :: rest, b => max b (peak rest (b - i.pops + i.pushes))

namespace Bounded

variable {Λ : Label → Nat} {cap d d₁ d' : Nat} {code rest p q : List Code}

theorem start_le (h : Bounded Λ cap d code d') : d ≤ cap := by
  cases h with
  | nil hle hcap => exact Nat.le_trans hle hcap
  | instr hcap => exact hcap
  | label hle hcap => exact Nat.le_trans hle hcap

/-- Less on the stack at the start does no harm. -/
theorem mono {d₀ : Nat} (h : Bounded Λ cap d code d') (hd : d₀ ≤ d) :
    Bounded Λ cap d₀ code d' := by
  cases h with
  | nil hle hcap => exact .nil (Nat.le_trans hd hle) hcap
  | @instr _ d₁ _ i rest hcap hfalls hjump hrest =>
      have hstep : d₀ - i.pops + i.pushes ≤ d - i.pops + i.pushes := by omega
      exact .instr (Nat.le_trans hd hcap) (fun hf => Nat.le_trans hstep (hfalls hf))
        (fun jump hj => Nat.le_trans hstep (hjump jump hj)) hrest
  | label hle hcap hrest => exact .label (Nat.le_trans hd hle) hcap hrest

theorem append (hp : Bounded Λ cap d p d₁) (hq : Bounded Λ cap d₁ q d') :
    Bounded Λ cap d (p ++ q) d' := by
  induction hp with
  | nil hle _ => exact hq.mono hle
  | instr hcap hfalls hjump _ ih => exact .instr hcap hfalls hjump (ih hq)
  | label hle hcap _ ih => exact .label hle hcap (ih hq)

/-- A label whose bound is known. -/
theorem labelled {l : Label} (hl : Λ l = d₁) (hd : d ≤ d₁) (hrest : Bounded Λ cap d₁ rest d') :
    Bounded Λ cap d (.label l :: rest) d' := by
  subst hl
  exact .label hd hrest.start_le hrest

theorem branch {b : Branch} {l : Label} (hcap : d ≤ cap) (hd : d ≤ d₁ + b.pops) (hl : d₁ ≤ Λ l)
    (hrest : Bounded Λ cap d₁ rest d') : Bounded Λ cap d (.instr (.branch b l) :: rest) d' := by
  have hstep : d - b.pops + 0 ≤ d₁ := by omega
  refine .instr hcap (fun _ => hstep) ?_ hrest
  rintro jump ⟨⟩
  exact Nat.le_trans hstep hl

theorem goto {l : Label} (hcap : d ≤ cap) (hl : d ≤ Λ l) (hrest : Bounded Λ cap d₁ rest d') :
    Bounded Λ cap d (.instr (.goto l) :: rest) d' := by
  refine .instr hcap (by simp [Instr.fallsThrough]) ?_ hrest
  rintro jump ⟨⟩
  exact hl

/-- Plain instructions that find their operands above `d` other values. -/
theorem straight (is : List Instr) {b b' k : Nat} (hrun : runPlain depthTransfer is b = some b')
    (hpeak : peak is b = k) (hcap : d + k ≤ cap) (hrest : Bounded Λ cap (d + b') rest d') :
    Bounded Λ cap (d + b) (is.map Code.instr ++ rest) d' := by
  induction is generalizing b k with
  | nil =>
      obtain rfl : b = b' := Option.some.inj hrun
      exact hrest
  | cons i is ih =>
      rw [runPlain] at hrun
      split at hrun
      · next hplain =>
          obtain ⟨b₁, hi, hlater⟩ := Option.bind_eq_some_iff.mp hrun
          rw [peak] at hpeak
          unfold depthTransfer at hi
          split at hi
          · next hle =>
              have hb₁ : b - i.pops + i.pushes = b₁ := Option.some.inj hi
              rw [hb₁] at hpeak
              refine .instr (by omega) (fun _ => ?_) ?_ (ih hlater rfl (by omega))
              · omega
              · intro jump hjump
                rw [Instr.jump?_of_isPlain hplain] at hjump
                cases hjump
          · cases hi
      · cases hrun

/-- The code from any place on is bounded, from some depth. -/
theorem suffix (h : Bounded Λ cap d code d') (j : Nat) :
    ∃ b, Bounded Λ cap b (code.drop j) d' := by
  induction h generalizing j with
  | @nil d d' hle hcap =>
      rw [List.drop_nil]
      exact ⟨d, .nil hle hcap⟩
  | instr hcap hfalls hjump hrest ih =>
      cases j with
      | zero => exact ⟨_, .instr hcap hfalls hjump hrest⟩
      | succ j => exact ih j
  | label hle hcap hrest ih =>
      cases j with
      | zero => exact ⟨_, .label hle hcap hrest⟩
      | succ j => exact ih j

theorem drop_of_getElem? {c : Code} {i : Nat} (h : code[i]? = some c) :
    code.drop i = c :: code.drop (i + 1) := by
  obtain ⟨hlt, rfl⟩ := List.getElem?_eq_some_iff.mp h
  exact List.drop_eq_getElem_cons hlt

/-- Wherever a label is declared, the code below it is bounded from the label's depth. -/
theorem at_label (h : Bounded Λ cap d code d') {j : Nat} {l : Label}
    (hj : code[j]? = some (.label l)) : Bounded Λ cap (Λ l) (code.drop j) d' := by
  obtain ⟨b, hb⟩ := h.suffix j
  rw [drop_of_getElem? hj] at hb ⊢
  cases hb with
  | label _ hcap hrest => exact .label (Nat.le_refl _) hcap hrest

/-- From a place whose depth is bounded, each step leads to such a place. -/
theorem depth_le_suffix (h : Bounded Λ cap d code d') {i s : Nat}
    (hv : Visits depthTransfer code d i s) : ∃ b, s ≤ b ∧ Bounded Λ cap b (code.drop i) d' := by
  induction hv with
  | start => exact ⟨d, Nat.le_refl d, h⟩
  | @instr i j s s' x _ hi ht hj ih =>
      obtain ⟨b, hs, hb⟩ := ih
      rw [drop_of_getElem? hi] at hb
      have hs' : s' = s - x.pops + x.pushes := by
        unfold depthTransfer at ht
        split at ht
        · exact (Option.some.inj ht).symm
        · cases ht
      cases hb with
      | @instr _ d₁ _ _ _ _ hfalls hjump hrest =>
          rcases hj with ⟨hf, rfl⟩ | ⟨jump, hjump?, hat⟩
          · have hle := hfalls hf
            exact ⟨d₁, by omega, hrest⟩
          · have hle := hjump jump hjump?
            exact ⟨Λ jump.target, by omega, h.at_label hat⟩
  | @label i s l _ hi ih =>
      obtain ⟨b, hs, hb⟩ := ih
      rw [drop_of_getElem? hi] at hb
      cases hb with
      | label hle _ hrest => exact ⟨Λ l, Nat.le_trans hs hle, hrest⟩

/-- No depth that execution meets exceeds the bound. -/
theorem depth_le (h : Bounded Λ cap d code d') {i s : Nat}
    (hv : Visits depthTransfer code d i s) : s ≤ cap := by
  obtain ⟨b, hs, hb⟩ := h.depth_le_suffix hv
  exact Nat.le_trans hs hb.start_le

end Bounded

-- ============================================================================
-- Labels with bounds
-- ============================================================================

/-- The code is bounded, whatever the bounds of labels are that it does not declare. -/
def StaysUnder (cap d : Nat) (parts : List Fragment) (d' : Nat) : Prop :=
  ∃ L : List (Label × Nat), L.map Prod.fst = declared (Fragment.codeAll parts) ∧
    ∀ Λ : Label → Nat, (∀ entry ∈ L, Λ entry.1 = entry.2) →
      Bounded Λ cap d (Fragment.codeAll parts) d'

namespace StaysUnder

variable {cap d d₁ d' : Nat} {p q rest : List Fragment}

theorem nil (hd : d ≤ d') (hcap : d' ≤ cap) : StaysUnder cap d [] d' :=
  ⟨[], by simp, fun _ _ => by simpa using Bounded.nil hd hcap⟩

theorem append (hp : StaysUnder cap d p d₁) (hq : StaysUnder cap d₁ q d') :
    StaysUnder cap d (p ++ q) d' := by
  obtain ⟨Lp, hkp, hbp⟩ := hp
  obtain ⟨Lq, hkq, hbq⟩ := hq
  refine ⟨Lp ++ Lq, by simp [hkp, hkq], fun Λ hΛ => ?_⟩
  rw [List.forall_mem_append] at hΛ
  rw [Fragment.codeAll_append]
  exact (hbp Λ hΛ.1).append (hbq Λ hΛ.2)

/-- More may be allowed for at the end. -/
theorem weaken (h : StaysUnder cap d p d₁) (hd : d₁ ≤ d') (hcap : d' ≤ cap) :
    StaysUnder cap d p d' := by
  simpa using h.append (.nil hd hcap)

theorem expr {e : Expr} (hp : StaysUnder cap d p d₁) (hrest : StaysUnder cap d₁ rest d') :
    StaysUnder cap d (.expr e p :: rest) d' := by
  simpa [StaysUnder] using hp.append hrest

theorem stmt {s : Stmt} (hp : StaysUnder cap d p d₁) (hrest : StaysUnder cap d₁ rest d') :
    StaysUnder cap d (.stmt s p :: rest) d' := by
  simpa [StaysUnder] using hp.append hrest

theorem straight (is : List Instr) {b b' k : Nat} (hrun : runPlain depthTransfer is b = some b')
    (hpeak : peak is b = k) (hcap : d + k ≤ cap) (hrest : StaysUnder cap (d + b') rest d') :
    StaysUnder cap (d + b) (is.map Fragment.instr ++ rest) d' := by
  obtain ⟨L, hkeys, hbounded⟩ := hrest
  refine ⟨L, by simp [hkeys], fun Λ hΛ => ?_⟩
  rw [Fragment.codeAll_append, Fragment.codeAll_map_instr]
  exact (hbounded Λ hΛ).straight is hrun hpeak hcap

/-- An instruction that ends the method leaves nothing to the code below it. -/
theorem leave {i : Instr} (hcap : d ≤ cap) (hfalls : i.fallsThrough = false)
    (hjump : i.jump? = none) : StaysUnder cap d [.instr i] 0 := by
  refine ⟨[], by simp, fun Λ _ => ?_⟩
  have hend : Bounded Λ cap 0 [] 0 := .nil (Nat.le_refl 0) (Nat.zero_le cap)
  simpa using Bounded.instr hcap (by simp [hfalls]) (by simp [hjump]) hend

/-- A comparison of two values. -/
theorem compare {negated : Branch} {otherwise after : Label} (h : negated.pops = 2)
    (hcap : d + 2 ≤ cap) :
    StaysUnder cap (d + 2) (conditionParts negated otherwise after) (d + 1) := by
  refine ⟨[(otherwise, d), (after, d + 1)], by simp [conditionParts], fun Λ hΛ => ?_⟩
  simp only [List.forall_mem_cons] at hΛ
  obtain ⟨hotherwise, hafter, -⟩ := hΛ
  have hend : Bounded Λ cap (d + 1) [] (d + 1) := .nil (Nat.le_refl _) (by omega)
  have hbox : Bounded Λ cap (d + 1) [.instr (.invoke .booleanValueOf)] (d + 1) :=
    .straight [.invoke .booleanValueOf] (b := 1) (k := 1) rfl rfl (by omega) hend
  have hafterBox : Bounded Λ cap (d + 1) [.label after, .instr (.invoke .booleanValueOf)] (d + 1) :=
    .labelled hafter (Nat.le_refl _) hbox
  have hfalse : Bounded Λ cap d (.instr .iconst0 :: _) (d + 1) :=
    .straight [.iconst0] (b := 0) (k := 1) rfl rfl (by omega) hafterBox
  have hlabel : Bounded Λ cap d (.label otherwise :: _) (d + 1) :=
    .labelled hotherwise (Nat.le_refl _) hfalse
  have hgoto : Bounded Λ cap (d + 1) (.instr (.goto after) :: _) (d + 1) :=
    .goto (by omega) (by omega) hlabel
  have htrue : Bounded Λ cap d (.instr .iconst1 :: _) (d + 1) :=
    .straight [.iconst1] (b := 0) (k := 1) rfl rfl (by omega) hgoto
  have hbranch : Bounded Λ cap (d + 2) (.instr (.branch negated otherwise) :: _) (d + 1) :=
    .branch hcap (by omega) (by omega) htrue
  simpa [conditionParts] using hbranch

/-- The left operand of a connective decides, or the right one does. -/
theorem logic {op : LogicOp} {l r : Expr} {pl pr : List Fragment} {skip after : Label}
    (hcap : d + 1 ≤ cap) (hl : StaysUnder cap d pl (d + 1)) (hr : StaysUnder cap d pr (d + 1)) :
    StaysUnder cap d [.expr l pl, .instr (.invoke .booleanBooleanValue),
      .instr (.branch op.skip skip), .expr r pr, .instr (.invoke .booleanBooleanValue),
      .instr (.goto after), .label skip, .instr op.decided, .label after,
      .instr (.invoke .booleanValueOf)] (d + 1) := by
  obtain ⟨Ll, hkl, hbl⟩ := hl
  obtain ⟨Lr, hkr, hbr⟩ := hr
  refine ⟨Ll ++ Lr ++ [(skip, d), (after, d + 1)], by simp [hkl, hkr], fun Λ hΛ => ?_⟩
  simp only [List.forall_mem_append, List.forall_mem_cons] at hΛ
  obtain ⟨⟨hΛl, hΛr⟩, hskip, hafter, -⟩ := hΛ
  have hend : Bounded Λ cap (d + 1) [] (d + 1) := .nil (Nat.le_refl _) hcap
  have hbox : Bounded Λ cap (d + 1) [.label after, .instr (.invoke .booleanValueOf)] (d + 1) :=
    .labelled hafter (Nat.le_refl _)
      (.straight [.invoke .booleanValueOf] (b := 1) (k := 1) rfl rfl hcap hend)
  have hdecided : Bounded Λ cap d (.label skip :: .instr op.decided :: _) (d + 1) :=
    .labelled hskip (Nat.le_refl _)
      (.straight [op.decided] (b := 0) (k := 1) (by cases op <;> rfl) (by cases op <;> rfl) hcap hbox)
  have hgoto : Bounded Λ cap (d + 1) (.instr (.goto after) :: _) (d + 1) :=
    .goto hcap (Nat.le_of_eq hafter.symm) hdecided
  have hright := (hbr Λ hΛr).append
    (.straight [.invoke .booleanBooleanValue] (b := 1) (k := 1) rfl rfl hcap hgoto)
  have hpops : op.skip.pops = 1 := by cases op <;> rfl
  have hbranch : Bounded Λ cap (d + 1) (.instr (.branch op.skip skip) :: _) (d + 1) :=
    .branch hcap (by omega) (Nat.le_of_eq hskip.symm) hright
  have hleft := (hbl Λ hΛl).append
    (.straight [.invoke .booleanBooleanValue] (b := 1) (k := 1) rfl rfl hcap hbranch)
  simpa using hleft

/-- A condition, between empty stacks. -/
theorem cond {test : Expr} {positive : Stmt} {pt pp pn : List Fragment} {l l' : Label}
    (hcap : 1 ≤ cap) (ht : StaysUnder cap 0 pt 1) (hp : StaysUnder cap 0 pp 0)
    (hn : StaysUnder cap 0 pn 0) :
    StaysUnder cap 0 ([.expr test pt, .instr (.invoke .booleanBooleanValue),
      .instr (.branch .ifeq l), .stmt positive pp, .instr (.goto l'), .label l, .instr .nop] ++ pn ++
      [.label l', .instr .nop]) 0 := by
  obtain ⟨Lt, hkt, hbt⟩ := ht
  obtain ⟨Lp, hkp, hbp⟩ := hp
  obtain ⟨Ln, hkn, hbn⟩ := hn
  refine ⟨Lt ++ Lp ++ (l, 0) :: (Ln ++ [(l', 0)]), by simp [hkt, hkp, hkn], fun Λ hΛ => ?_⟩
  simp only [List.forall_mem_append, List.forall_mem_cons] at hΛ
  obtain ⟨⟨hΛt, hΛp⟩, hΛl, hΛn, hΛl', -⟩ := hΛ
  have hend : Bounded Λ cap 0 [] 0 := .nil (Nat.le_refl _) (Nat.zero_le _)
  have hlast : Bounded Λ cap 0 [.label l', .instr .nop] 0 :=
    .labelled hΛl' (Nat.le_refl _)
      (.straight [.nop] (b := 0) (d := 0) (k := 0) rfl rfl (Nat.zero_le _) hend)
  have hnegative : Bounded Λ cap 0 (.label l :: .instr .nop :: _) 0 :=
    .labelled hΛl (Nat.le_refl _) (.straight [.nop] (b := 0) (d := 0) (k := 0) rfl rfl
      (Nat.zero_le _) ((hbn Λ hΛn).append hlast))
  have hgoto : Bounded Λ cap 0 (.instr (.goto l') :: _) 0 :=
    .goto (Nat.zero_le _) (Nat.zero_le _) hnegative
  have hbranch : Bounded Λ cap 1 (.instr (.branch .ifeq l) :: _) 0 :=
    .branch hcap (Nat.le_refl 1) (Nat.zero_le _) ((hbp Λ hΛp).append hgoto)
  have htest := (hbt Λ hΛt).append
    (.straight [.invoke .booleanBooleanValue] (b := 1) (d := 0) (k := 1) rfl rfl hcap hbranch)
  simpa using htest

/-- A loop, between empty stacks. -/
theorem loop {count : Expr} {body : Stmt} {pc pb : List Fragment} {l l' : Label} (slot : Nat)
    (hcap : 1 ≤ cap) (hc : StaysUnder cap 0 pc 1) (hb : StaysUnder cap 0 pb 0) :
    StaysUnder cap 0 [.expr count pc, .instr (.invoke .integerIntValue), .instr (.istore slot),
      .instr (.goto l'), .label l, .stmt body pb, .instr (.decrement slot), .label l',
      .instr (.iload slot), .instr (.branch .ifgt l)] 0 := by
  obtain ⟨Lc, hkc, hbc⟩ := hc
  obtain ⟨Lb, hkb, hbb⟩ := hb
  refine ⟨Lc ++ (l, 0) :: (Lb ++ [(l', 0)]), by simp [hkc, hkb], fun Λ hΛ => ?_⟩
  simp only [List.forall_mem_append, List.forall_mem_cons] at hΛ
  obtain ⟨hΛc, hΛl, hΛb, hΛl', -⟩ := hΛ
  have hend : Bounded Λ cap 0 [] 0 := .nil (Nat.le_refl _) (Nat.zero_le _)
  have hbranch : Bounded Λ cap 1 [.instr (.branch .ifgt l)] 0 :=
    .branch hcap (Nat.le_refl 1) (Nat.zero_le _) hend
  have htest : Bounded Λ cap 0 (.label l' :: .instr (.iload slot) :: _) 0 :=
    .labelled hΛl' (Nat.le_refl _)
      (.straight [.iload slot] (b := 0) (d := 0) (k := 1) rfl rfl hcap hbranch)
  have hcount : Bounded Λ cap 0 (.instr (.decrement slot) :: _) 0 :=
    .straight [.decrement slot] (b := 0) (d := 0) (k := 0) rfl rfl (Nat.zero_le _) htest
  have hbody : Bounded Λ cap 0 (.label l :: _) 0 :=
    .labelled hΛl (Nat.le_refl _) ((hbb Λ hΛb).append hcount)
  have hgoto : Bounded Λ cap 0 (.instr (.goto l') :: _) 0 :=
    .goto (Nat.zero_le _) (Nat.zero_le _) hbody
  have hstart := (hbc Λ hΛc).append (.straight [.invoke .integerIntValue, .istore slot] (b := 1)
    (d := 0) (k := 1) rfl rfl hcap hgoto)
  simpa using hstart

end StaysUnder

-- ============================================================================
-- Heights of expressions
-- ============================================================================

mutual

/-- How much deeper the stack gets than it was while the code of the expression runs. A
    function is read as a pointer, which is made from the receiver and the name. -/
def Expr.height (S : Setting) (id : ScopeId) : Expr → Nat
  | .int _ | .bool _ => 1
  | .ident name => if (S.symbols.function? name).isSome then 4 else 1
  | .group e | .unary .neg e | .size e | .field e _ => e.height S id
  | .unary .not e => max (e.height S id) 2
  | .binary (.arith _) l r | .binary (.order _) l r | .binary .equal l r | .index l r =>
    max (l.height S id) (1 + r.height S id)
  | .binary (.logic _) l r => max (l.height S id) (r.height S id)
  | .append l r => max (l.height S id) (2 + r.height S id)
  | .call target args => max (target.height S id) (max 3 (1 + Expr.argsHeight S id args))

/-- The same for the arguments of a call, with the list that they are added to. A list among
    them is copied. -/
def Expr.argsHeight (S : Setting) (id : ScopeId) : List Expr → Nat
  | [] => 1
  | e :: rest =>
    let below := match S.oracle id e with
      | .ok (.list _) => 4
      | _ => 2
    max (below + e.height S id) (Expr.argsHeight S id rest)

end

/-- The code gets at most `k` deeper than the stack was, and leaves at most one value. -/
structure RisesBy (k : Nat) (parts : List Fragment) : Prop where
  positive : 1 ≤ k
  under : ∀ {cap d : Nat}, d + k ≤ cap → StaysUnder cap d parts (d + 1)

namespace RisesBy

variable {k k' : Nat} {p pl pr rest : List Fragment} {e l r : Expr}

theorem mono (h : RisesBy k p) (hk : k ≤ k') : RisesBy k' p :=
  ⟨Nat.le_trans h.positive hk, fun hcap => h.under (by omega)⟩

/-- Instructions that push a value. -/
theorem push (is : List Instr) (hrun : runPlain depthTransfer is 0 = some 1) (hpeak : peak is 0 = k)
    (hk : 1 ≤ k) : RisesBy k (is.map Fragment.instr) := by
  refine ⟨hk, fun {cap d} hcap => ?_⟩
  rw [← List.append_nil (is.map Fragment.instr)]
  exact .straight is hrun hpeak hcap (.nil (Nat.le_refl _) (by omega))

/-- Instructions that replace the value of an operand. -/
theorem unary (he : RisesBy k p) (is : List Instr) (hrun : runPlain depthTransfer is 1 = some 1)
    (hpeak : peak is 1 = k') : RisesBy (max k k') (.expr e p :: is.map Fragment.instr) := by
  have hpositive := he.positive
  refine ⟨by omega, fun {cap d} hcap => .expr (he.under (by omega)) ?_⟩
  rw [← List.append_nil (is.map Fragment.instr)]
  exact .straight is hrun hpeak (by omega) (.nil (Nat.le_refl _) (by omega))

/-- Two operands, the first of which may be unboxed before the second, and what makes one
    value of them. -/
theorem binary (hl : RisesBy k pl) (hr : RisesBy k' pr) (between : List Instr)
    (hrun : runPlain depthTransfer between 1 = some 1) (hpeak : peak between 1 = 1)
    (hrest : ∀ {cap d : Nat}, d + 2 ≤ cap → StaysUnder cap (d + 2) rest (d + 1)) :
    RisesBy (max k (1 + k')) (.expr l pl :: (between.map Fragment.instr ++ .expr r pr :: rest)) := by
  have hpositive := hr.positive
  refine ⟨by omega, fun {cap d} hcap => .expr (hl.under (by omega)) ?_⟩
  refine .straight between hrun hpeak (by omega) (.expr (hr.under (d := d + 1) (by omega)) ?_)
  exact hrest (by omega)

end RisesBy

def ExprTask.Rises (S : Setting) (id : ScopeId) (parts : List Fragment) : ExprTask → Prop
  | .one e => RisesBy (e.height S id) parts
  | .args es => ∀ cap d : Nat, d + Expr.argsHeight S id es ≤ cap →
      StaysUnder cap (d + 1) parts (d + 1)

section Expressions

variable {S : Setting} {id : ScopeId}

/-- A call with its target and its arguments, up to the narrowing of its result. -/
theorem StaysUnder.call {pt pa : List Fragment} {cap d : Nat} (target : Expr) (result : Ty)
    (hcap : d + 3 ≤ cap) (ht : StaysUnder cap d pt (d + 1))
    (ha : StaysUnder cap (d + 2) pa (d + 2)) :
    StaysUnder cap d ([.expr target pt, .instr (.new arrayListClass), .instr .dup,
      .instr (.invoke .arrayListInit)] ++ pa ++
      [.instr (.invoke .fptrInvoke), .instr (narrowing result)])
      (d + if result.isVoid then 0 else 1) := by
  have hpeak : peak [.invoke .fptrInvoke, narrowing result] 2 = 2 := by cases result <;> rfl
  have hle : (if result.isVoid then 0 else 1) ≤ 1 := by split <;> omega
  have hinvoke : StaysUnder cap (d + 2)
      [.instr (.invoke .fptrInvoke), .instr (narrowing result)] _ :=
    .straight [.invoke .fptrInvoke, narrowing result] (narrowing_depth result) hpeak (by omega)
      (.nil (Nat.le_refl _) (by omega))
  have hargs : StaysUnder cap (d + 1) (.instr (.new arrayListClass) :: .instr .dup ::
      .instr (.invoke .arrayListInit) :: (pa ++ _)) _ :=
    .straight [.new arrayListClass, .dup, .invoke .arrayListInit] (b := 1) (k := 3) rfl rfl hcap
      (ha.append hinvoke)
  simpa using ht.expr hargs

/-- The code of an expression gets no deeper than its height, and leaves at most its value. -/
theorem ExprLowered.rises {t : ExprTask} {f f' : Frame} {parts : List Fragment}
    (h : ExprLowered S t f parts f') (hid : f.activeScope = id) : t.Rises S id parts := by
  induction h with
  | @int f n => exact .push [.ldcInt n, .invoke .integerValueOf] rfl rfl (Nat.le_refl 1)
  | @bool f b =>
      exact .push [if b then .iconst1 else .iconst0, .invoke .booleanValueOf]
        (by cases b <;> rfl) (by cases b <;> rfl) (Nat.le_refl 1)
  | @function f name signature s hlookup =>
      have hfunction := SymbolTable.function?_of_lookup hlookup
      rw [ExprTask.Rises, Expr.height, hfunction]
      exact .push [.new fptrClass, .dup, .aload receiverSlot, .ldcText name, .invoke .fptrInit]
        rfl rfl (by simp)
  | @«variable» f f' name slot hlookup =>
      have hfunction := SymbolTable.function?_of_lookup hlookup
      rw [ExprTask.Rises, Expr.height, hfunction]
      exact .push [.aload slot] rfl rfl (Nat.le_refl 1)
  | @group f f' e p _ ih =>
      have hvalue : RisesBy (e.height S id) p := ih hid
      rw [ExprTask.Rises, Expr.height]
      exact (hvalue.unary [] rfl rfl).mono (Nat.max_le.mpr ⟨Nat.le_refl _, hvalue.positive⟩)
  | @arith f f₁ f' op l r pl pr hl _ ihl ihr =>
      rw [ExprTask.Rises, Expr.height]
      refine .binary (ihl hid) (ihr (hl.activeScope.trans hid)) [.invoke .integerIntValue] rfl rfl ?_
      intro cap d hcap
      exact .straight [.invoke .integerIntValue, op.instr, .invoke .integerValueOf] (b := 2)
        (k := 2) (by cases op <;> rfl) (by cases op <;> rfl) hcap (.nil (Nat.le_refl _) (by omega))
  | @order f f₁ f₂ op l r pl pr hl _ ihl ihr =>
      rw [ExprTask.Rises, Expr.height]
      refine .binary (ihl hid) (ihr (hl.activeScope.trans hid)) [.invoke .integerIntValue] rfl rfl ?_
      intro cap d hcap
      exact .straight [.invoke .integerIntValue] (b := 2) (k := 2) rfl rfl hcap
        (.compare (by cases op <;> rfl) hcap)
  | @logic f f₁ f' op l r pl pr hl _ ihl ihr =>
      have hleft : RisesBy (l.height S id) pl := ihl hid
      have hright : RisesBy (r.height S id) pr := ihr (hl.activeScope.trans hid)
      have hpositive := hleft.positive
      rw [ExprTask.Rises, Expr.height]
      exact ⟨by omega, fun hcap => .logic (by omega) (hleft.under (by omega))
        (hright.under (by omega))⟩
  | @equalValues f f₁ f₂ l r pl pr ty m _ hm hl _ ihl ihr =>
      have hunbox : (Instr.invoke m).pops = 1 ∧ (Instr.invoke m).pushes = 1 := by
        cases ty <;> cases hm <;> exact ⟨rfl, rfl⟩
      have hrun : ∀ b, runPlain depthTransfer [.invoke m] (b + 1) = some (b + 1) := by
        intro b
        apply runPlain_depth_add _ 1 b
        cases ty <;> cases hm <;> rfl
      have hpeak : ∀ b, 1 ≤ b → peak [.invoke m] b = b := by
        intro b hb
        rw [peak, peak, hunbox.1, hunbox.2]
        omega
      rw [ExprTask.Rises, Expr.height]
      refine .binary (ihl hid) (ihr (hl.activeScope.trans hid)) [.invoke m] (hrun 0)
        (hpeak 1 (Nat.le_refl 1)) ?_
      intro cap d hcap
      exact .straight [.invoke m] (b := 2) (hrun 1) (hpeak 2 (by decide)) hcap (.compare rfl hcap)
  | @equalReferences f f₁ f₂ l r pl pr ty _ _ hl _ ihl ihr =>
      rw [ExprTask.Rises, Expr.height]
      exact .binary (ihl hid) (ihr (hl.activeScope.trans hid)) [] rfl rfl (.compare rfl)
  | @not f f' e p _ ih =>
      have hvalue : RisesBy (e.height S id) p := ih hid
      rw [ExprTask.Rises, Expr.height]
      exact hvalue.unary [.invoke .booleanBooleanValue, .iconst1, .ixor, .invoke .booleanValueOf]
        rfl rfl
  | @neg f f' e p _ ih =>
      have hvalue : RisesBy (e.height S id) p := ih hid
      rw [ExprTask.Rises, Expr.height]
      exact (hvalue.unary [.invoke .integerIntValue, .ineg, .invoke .integerValueOf] rfl rfl).mono
        (Nat.max_le.mpr ⟨Nat.le_refl _, hvalue.positive⟩)
  | @index f f₁ f' l r pl pr ty name _ _ hl _ ihl ihr =>
      rw [ExprTask.Rises, Expr.height]
      refine .binary (ihl hid) (ihr (hl.activeScope.trans hid)) [] rfl rfl ?_
      intro cap d hcap
      exact .straight [.invoke .integerIntValue, .invoke .listGetElement, .checkcast name] (b := 2)
        (k := 2) rfl rfl hcap (.nil (Nat.le_refl _) (by omega))
  | @append f f₁ f' l r pl pr hl _ ihl ihr =>
      have hleft : RisesBy (l.height S id) pl := ihl hid
      have hright : RisesBy (r.height S id) pr := ihr (hl.activeScope.trans hid)
      have hpositive := hright.positive
      rw [ExprTask.Rises, Expr.height]
      refine ⟨by omega, fun {cap d} hcap => .expr (hleft.under (by omega)) ?_⟩
      exact .straight [.dup] (b := 1) (k := 2) rfl rfl (by omega)
        (.expr (hright.under (d := d + 2) (by omega)) (.straight [.invoke .listAddElement] (b := 3)
          (k := 3) rfl rfl (by omega) (.nil (Nat.le_refl _) (by omega))))
  | @size f f' e p _ ih =>
      have hvalue : RisesBy (e.height S id) p := ih hid
      rw [ExprTask.Rises, Expr.height]
      exact (hvalue.unary [.invoke .listGetSize, .invoke .integerValueOf] rfl rfl).mono
        (Nat.max_le.mpr ⟨Nat.le_refl _, hvalue.positive⟩)
  | @call f f₁ f' target args pt pa params result _ ht _ iht iha =>
      have htarget : RisesBy (target.height S id) pt := iht hid
      have hargs := iha (ht.activeScope.trans hid)
      have hle : (if result.isVoid then 0 else 1) ≤ 1 := by split <;> omega
      rw [ExprTask.Rises, Expr.height]
      refine ⟨by omega, fun {cap d} hcap => ?_⟩
      have hcall := StaysUnder.call (d := d) target result (by omega) (htarget.under (by omega))
        (hargs cap (d + 1) (by omega))
      exact hcall.weaken (by omega) (by omega)
  | argsNil =>
      intro cap d hcap
      exact .nil (Nat.le_refl _) hcap
  | @argsCopied f f₁ f' arg rest p pa element hty harg _ ih iha =>
      have hvalue : RisesBy (arg.height S id) p := ih hid
      have hargs := iha (harg.activeScope.trans hid)
      have hpositive := hvalue.positive
      intro cap d hcap
      rw [Expr.argsHeight, ← hid, hty, hid] at hcap
      dsimp only at hcap
      exact .straight [.dup, .new listClass, .dup] (b := 1) (k := 4) rfl rfl (by omega)
        (.expr (hvalue.under (d := d + 4) (by omega)) (.straight [.invoke .listCopy,
          .invoke .arrayListAdd, .pop] (b := 5) (k := 5) rfl rfl (by omega) (hargs cap d (by omega))))
  | @argsPassed f f₁ f' arg rest p pa ty hty hlist harg _ ih iha =>
      have hvalue : RisesBy (arg.height S id) p := ih hid
      have hargs := iha (harg.activeScope.trans hid)
      have hpositive := hvalue.positive
      intro cap d hcap
      have hheight : Expr.argsHeight S id (arg :: rest) =
          max (2 + arg.height S id) (Expr.argsHeight S id rest) := by
        rw [Expr.argsHeight, ← hid, hty]
        cases ty with
        | list element => exact absurd rfl (hlist element)
        | _ => rfl
      rw [hheight] at hcap
      exact .straight [.dup] (b := 1) (k := 2) rfl rfl (by omega)
        (.expr (hvalue.under (d := d + 2) (by omega)) (.straight [.invoke .arrayListAdd, .pop]
          (b := 3) (k := 3) rfl rfl (by omega) (hargs cap d (by omega))))

end Expressions

-- ============================================================================
-- Heights of statements
-- ============================================================================

/-- How deep the stack gets while the zero value of a type is made. -/
def Ty.zeroHeight : Ty → Nat
  | .list _ | .struct _ => 2
  | _ => 1

theorem Ty.one_le_zeroHeight (ty : Ty) : 1 ≤ ty.zeroHeight := by
  cases ty <;> simp [zeroHeight]

mutual

/-- How deep the stack gets while the code of a statement runs. -/
def Stmt.height (S : Setting) (id : ScopeId) : Stmt → Nat
  | .block body => Stmt.heightOf S id body
  | .declare _ ty none => ty.zeroHeight
  | .ret none => 0
  | .declare _ _ (some e) | .ret (some e) | .assign _ e | .size e => e.height S id
  | .display e => 1 + e.height S id
  | .cond test positive none => max (test.height S id) (positive.height S id)
  | .cond test positive (some negative) =>
    max (test.height S id) (max (positive.height S id) (negative.height S id))
  | .loop count body => max (count.height S id) (body.height S id)
  | .call target args => (Expr.call target args).height S id
  | .append l r => (Expr.append l r).height S id

def Stmt.heightOf (S : Setting) (id : ScopeId) : List Stmt → Nat
  | [] => 0
  | s :: rest => max (s.height S id) (Stmt.heightOf S id rest)

end

def StmtTask.height (S : Setting) (id : ScopeId) : StmtTask → Nat
  | .one s => s.height S id
  | .many ss => Stmt.heightOf S id ss

section Statements

variable {S : Setting} {id : ScopeId} {cap : Nat}

theorem Stmt.height_cond (test : Expr) (positive : Stmt) (negative : Option Stmt) :
    (Stmt.cond test positive negative).height S id =
      max (test.height S id) (max (positive.height S id) (Stmt.heightOf S id negative.toList)) := by
  cases negative <;> simp [Stmt.height, Stmt.heightOf]

/-- The code of an expression that starts on an empty stack. -/
theorem ExprLowered.staysUnder {e : Expr} {f f' : Frame} {p : List Fragment}
    (h : ExprLowered S (.one e) f p f') (hid : f.activeScope = id) (hcap : e.height S id ≤ cap) :
    1 ≤ cap ∧ StaysUnder cap 0 p 1 := by
  have hvalue : RisesBy (e.height S id) p := h.rises hid
  exact ⟨Nat.le_trans hvalue.positive hcap, hvalue.under (d := 0) (by omega)⟩

/-- The code of an expression whose value is consumed by the next instruction. -/
theorem ExprLowered.consumed {e : Expr} {f f' : Frame} {p : List Fragment} (i : Instr)
    (h : ExprLowered S (.one e) f p f') (hid : f.activeScope = id) (hcap : e.height S id ≤ cap)
    (hi : runPlain depthTransfer [i] 1 = some 0) (hpeak : peak [i] 1 = 1) :
    StaysUnder cap 0 [.expr e p, .instr i] 0 := by
  obtain ⟨hone, hvalue⟩ := h.staysUnder hid hcap
  exact hvalue.expr (.straight [i] (b := 1) (d := 0) hi hpeak (by omega)
    (.nil (Nat.le_refl 0) (Nat.zero_le cap)))

/-- A call whose result, if it has one, is dropped. -/
theorem ExprLowered.dropped {target : Expr} {args : List Expr} {f f' : Frame} {p : List Fragment}
    {ty : Ty} (h : ExprLowered S (.one (.call target args)) f p f') (hid : f.activeScope = id)
    (hty : S.oracle f.activeScope target = .ok ty)
    (hcap : (Expr.call target args).height S id ≤ cap) :
    StaysUnder cap 0 (.expr (.call target args) p :: (dropping ty).map Fragment.instr) 0 := by
  cases h with
  | @call _ f₁ _ _ _ pt pa params result hty' ht ha =>
      obtain rfl : ty = .fptr params result := Except.ok.inj (hty.symm.trans hty')
      have htarget : RisesBy (target.height S id) pt := ht.rises hid
      have hargs : ExprTask.Rises S id pa (.args args) := ha.rises (ht.activeScope.trans hid)
      rw [Expr.height] at hcap
      have hcall := StaysUnder.call (d := 0) target result (by omega)
        (htarget.under (by omega)) (hargs cap 1 (by omega))
      have hdrop : runPlain depthTransfer (dropping (.fptr params result))
          (if result.isVoid then 0 else 1) = some 0 := by
        cases result <;> rfl
      have hpeak : peak (dropping (.fptr params result)) (if result.isVoid then 0 else 1) =
          if result.isVoid then 0 else 1 := by
        cases result <;> rfl
      have hle : (if result.isVoid then 0 else 1) ≤ 1 := by split <;> omega
      rw [← List.append_nil (List.map Fragment.instr _)]
      exact hcall.expr (.straight _ hdrop hpeak (by omega) (.nil (Nat.le_refl 0) (Nat.zero_le cap)))

theorem ZeroCode.peak {ty : Ty} {is : List Instr} (h : ZeroCode S id ty is) :
    JasminGen.peak is 0 = ty.zeroHeight := by
  cases h <;> rfl

/-- The code of a statement starts and ends on an empty stack, and gets no deeper than its
    height. -/
theorem StmtLowered.staysUnder {t : StmtTask} {f f' : Frame} {parts : List Fragment}
    (h : StmtLowered S t f parts f') (hid : f.activeScope = id) (hcap : t.height S id ≤ cap) :
    StaysUnder cap 0 parts 0 := by
  have hend : StaysUnder cap 0 [] 0 := .nil (Nat.le_refl 0) (Nat.zero_le cap)
  induction h with
  | block _ ih => exact ih hid hcap
  | @declare f f₁ f' name ty e p slot he _ => exact he.consumed (.astore slot) hid hcap rfl rfl
  | @declareZero f f' name ty is slot hz _ =>
      have hheight : ty.zeroHeight ≤ cap := hcap
      have hone := ty.one_le_zeroHeight
      exact .straight is (b := 0) (d := 0) hz.depth hz.peak (by omega)
        (.straight [.astore slot] (b := 1) (d := 0) (k := 1) rfl rfl (by omega) hend)
  | @assign f f₁ f' name e p slot he _ => exact he.consumed (.astore slot) hid hcap rfl rfl
  | @cond f f₁ f₂ f' test positive negative pt pp pn ht hp _ ihp ihn =>
      rw [StmtTask.height, Stmt.height_cond] at hcap
      have hle : test.height S id ≤ cap := by omega
      obtain ⟨hone, htest⟩ := ht.staysUnder hid hle
      have hid₁ := ht.activeScope.trans hid
      exact .cond hone htest (ihp hid₁ (by rw [StmtTask.height]; omega))
        (ihn (hp.activeScope.trans hid₁) (by rw [StmtTask.height]; omega))
  | @loop f f₁ f' count body pc pb _ hc _ ihb =>
      rw [StmtTask.height, Stmt.height] at hcap
      have hle : count.height S id ≤ cap := by omega
      obtain ⟨hone, hcount⟩ := hc.staysUnder hid hle
      exact .loop f.slots.next hone hcount
        (ihb (hc.activeScope.trans hid) (by rw [StmtTask.height]; omega))
  | call hty hc => exact hc.dropped hid hty hcap
  | ret => exact .leave (Nat.zero_le cap) rfl rfl
  | @retValue f f' e p ty _ he =>
      obtain ⟨hone, hvalue⟩ := he.staysUnder hid hcap
      cases ty.isVoid with
      | true => exact hvalue.expr (.leave hone rfl rfl)
      | false => exact hvalue.expr (.leave hone rfl rfl)
  | @display f f' e p ty unboxer printer _ hu hp he =>
      have hvalue : RisesBy (e.height S id) p := he.rises hid
      have hpositive := hvalue.positive
      rw [StmtTask.height, Stmt.height] at hcap
      have hprint : runPlain depthTransfer [.invoke unboxer, .invoke printer] 2 = some 0 := by
        cases ty <;> cases hu <;> cases hp <;> rfl
      have hpeak : peak [.invoke unboxer, .invoke printer] 2 = 2 := by
        cases ty <;> cases hu <;> cases hp <;> rfl
      exact .straight [.getSystemOut] (b := 0) (d := 0) (k := 1) rfl rfl (by omega)
        (.expr (hvalue.under (d := 1) hcap)
          (.straight [.invoke unboxer, .invoke printer] (d := 0) hprint hpeak (by omega) hend))
  | append he => exact he.consumed .pop hid hcap rfl rfl
  | @size f f' e p he =>
      rw [StmtTask.height, Stmt.height] at hcap
      exact he.consumed .pop hid (by rwa [Expr.height]) rfl rfl
  | nil => exact hend
  | cons hs _ ih ihs =>
      rw [StmtTask.height, Stmt.heightOf] at hcap
      exact .stmt (ih hid (by rw [StmtTask.height]; omega))
        (ihs (hs.activeScope.trans hid) (by rw [StmtTask.height]; omega))

end Statements

-- ============================================================================
-- Heights of methods
-- ============================================================================

/-- How deep the stack gets while the value that a field starts with is made. -/
def FieldDef.height (S : Setting) (id : ScopeId) (field : FieldDef) : Nat :=
  match field.value, field.ty with
  | some e, _ => e.height S id
  | none, .struct _ => 1
  | none, ty => ty.zeroHeight

/-- The depth of the operand stack that a method needs. Fields are set on the receiver. -/
def Origin.stackNeed (S : Setting) (o : Origin) : Nat :=
  match o with
  | .constructor s =>
    s.fields.foldr (fun field need => max (1 + field.height S (o.scopeId S)) need) 1
  | .entry => 2
  | .body ss => max 1 (Stmt.heightOf S (o.scopeId S) ss)
  | .function f => Stmt.heightOf S (o.scopeId S) f.body

section Methods

variable {S : Setting} {id : ScopeId} {cap : Nat}

theorem InitialLowered.rises {field : FieldDef} {f f' : Frame} {p : List Fragment}
    (h : InitialLowered S field f p f') (hid : f.activeScope = id) :
    RisesBy (field.height S id) p := by
  cases h with
  | @value _ _ name ty e p he =>
      have hvalue : RisesBy (e.height S id) p := he.rises hid
      exact (hvalue.unary [] rfl rfl).mono (Nat.max_le.mpr ⟨Nat.le_refl _, hvalue.positive⟩)
  | null => exact .push [.aconstNull] rfl rfl (Nat.le_refl 1)
  | @zero f name ty is hstruct hz =>
      have hheight : FieldDef.height S id ⟨name, ty, none⟩ = ty.zeroHeight := by
        cases ty with
        | struct struct => exact absurd rfl (hstruct struct)
        | _ => rfl
      rw [hheight]
      exact .push is hz.depth hz.peak ty.one_le_zeroHeight

theorem FieldsLowered.staysUnder {className : String} {fields : List FieldDef} {f f' : Frame}
    {p : List Fragment} (h : FieldsLowered S className fields f p f') (hid : f.activeScope = id)
    (hcap : fields.foldr (fun field need => max (1 + field.height S id) need) 1 ≤ cap) :
    StaysUnder cap 0 p 0 := by
  induction h with
  | nil => exact .nil (Nat.le_refl 0) (Nat.zero_le cap)
  | @cons f f₁ f' field rest p ps hi _ ih =>
      rw [List.foldr_cons] at hcap
      have hvalue := hi.rises hid
      have hpositive := hvalue.positive
      have hrest := ih ((Frame.activeScope_congr hi.entered).trans hid) (by omega)
      have hinitial : StaysUnder cap 1 p 2 := hvalue.under (by omega)
      exact .straight [.aload receiverSlot] (b := 0) (d := 0) (k := 1) rfl rfl (by omega)
        (hinitial.append (.straight [.putfield className field.name field.ty] (b := 2) (d := 0)
          (k := 2) rfl rfl (by omega) hrest))

theorem one_le_fieldsNeed (fields : List FieldDef) :
    1 ≤ fields.foldr (fun field need => max (1 + field.height S id) need) 1 := by
  cases fields with
  | nil => exact Nat.le_refl 1
  | cons field rest =>
      rw [List.foldr_cons]
      omega

theorem MethodLowered.staysUnder {o : Origin} {n n' : Label} {m : LoweredMethod}
    (h : MethodLowered S o n m n') : StaysUnder (o.stackNeed S) 0 m.parts 0 := by
  have hret {cap : Nat} : StaysUnder cap 0 [.instr .ret] 0 := .leave (Nat.zero_le cap) rfl rfl
  cases h with
  | @constructor s id n f' p hid hf =>
      have hscope : Origin.scopeId S (.constructor s) = id := by rw [Origin.scopeId, hid]; rfl
      have hneed : 1 ≤ Origin.stackNeed S (.constructor s) := one_le_fieldsNeed s.fields
      have hfields := hf.staysUnder hscope.symm (Nat.le_refl (Origin.stackNeed S (.constructor s)))
      exact .straight [.aload receiverSlot, .invoke .objectInit] (b := 0) (d := 0) (k := 1) rfl rfl
        (by omega) (hfields.append hret)
  | entry =>
      exact .straight [.new entryClass, .dup, .invoke (.constructor entryClass)] (b := 0) (d := 0)
        rfl rfl (Nat.le_refl 2) (.leave (Nat.le_succ 1) rfl rfl)
  | @body ss id n f' p hid hb =>
      have hscope : Origin.scopeId S (.body ss) = id := by rw [Origin.scopeId, hid]; rfl
      have hneed : 1 ≤ Origin.stackNeed S (.body ss) := Nat.le_max_left _ _
      have hbody : StaysUnder (Origin.stackNeed S (.body ss)) 0 p 0 :=
        hb.staysUnder hscope.symm (Nat.le_max_right _ _)
      exact .straight [.aload receiverSlot, .invoke .objectInit] (b := 0) (d := 0) (k := 1) rfl rfl
        (by omega) (hbody.append hret)
  | @function fn id signature slots n f' p hid _ _ hb =>
      have hscope : Origin.scopeId S (.function fn) = id := by rw [Origin.scopeId, hid]; rfl
      have hbody : StaysUnder (Origin.stackNeed S (.function fn)) 0 p 0 :=
        hb.staysUnder hscope.symm (Nat.le_refl _)
      cases signature.result.isVoid with
      | true => exact hbody.append hret
      | false => simpa using hbody

/-- No depth that execution meets in a method exceeds what the method needs, as long as its
    labels differ. -/
theorem MethodLowered.depth_le {o : Origin} {n n' : Label} {m : LoweredMethod}
    (h : MethodLowered S o n m n') (hcount : o.labelCount ≤ UInt32.size) {place depth : Nat}
    (hv : Visits depthTransfer m.code.body 0 place depth) : depth ≤ o.stackNeed S := by
  obtain ⟨L, hkeys, hbounded⟩ := h.staysUnder
  obtain ⟨Λ, hΛ⟩ := exists_labelling (hkeys ▸ h.labelled.2.declared_nodup hcount)
  exact (hbounded Λ hΛ).depth_le hv

end Methods

end JasminGen
