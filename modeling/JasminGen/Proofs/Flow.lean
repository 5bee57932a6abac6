/-
  JasminGen.Proofs.Flow

  Abstract states along the control flow of code. A transfer says what an instruction
  makes of a state, or that it does not find its operands. Code flows from one state to
  another if there is a state for every place such that each instruction leads from its
  own state to those of its successors.

  States are found construct by construct, reading the code once from start to end. The
  states of the labels are collected on the way, and the labels of a method differ, so
  in the end each label has one state.

  Main definitions: `Transfer`, `Successor`, `Consistent`, `Flows`. Main result:
  `Flows.exists_states`.
-/

import JasminGen.Proofs.Labels

namespace JasminGen

variable {σ : Type}

-- ============================================================================
-- Successors
-- ============================================================================

/-- What an instruction makes of a state; nothing if it does not find its operands. -/
abbrev Transfer (σ : Type) := Instr → σ → Option σ

/-- Whether the instruction after this one may be next. -/
def Instr.fallsThrough : Instr → Bool
  | .goto _ | .ret | .areturn => false
  | _ => true

/-- The place `j` may come next after the instruction `instr` at the place `i`. -/
def Successor (code : List Code) (i : Nat) (instr : Instr) (j : Nat) : Prop :=
  (instr.fallsThrough = true ∧ j = i + 1) ∨
    ∃ jump, instr.jump? = some jump ∧ code[j]? = some (.label jump.target)

/-- A state for every place, such that every instruction finds its operands, and leads
    to the state of each of its successors; a jump has its target among these. -/
def Consistent (T : Transfer σ) (code : List Code) (states : Nat → σ) : Prop :=
  ∀ (i : Nat) (c : Code), code[i]? = some c →
    match c with
    | .instr instr =>
      (∃ s, T instr (states i) = some s ∧ ∀ j, Successor code i instr j → states j = s) ∧
        ∀ jump, instr.jump? = some jump → ∃ j : Nat, code[j]? = some (.label jump.target)
    | .label _ => states (i + 1) = states i
    | _ => False

/-- The states that execution from the state `s₀` meets at each place, along all
    paths. -/
inductive Visits (T : Transfer σ) (code : List Code) (s₀ : σ) : Nat → σ → Prop where
  | start : Visits T code s₀ 0 s₀
  | instr {i j : Nat} {s s' : σ} {x : Instr} :
      Visits T code s₀ i s → code[i]? = some (.instr x) → T x s = some s' →
      Successor code i x j → Visits T code s₀ j s'
  | label {i : Nat} {s : σ} {l : Label} :
      Visits T code s₀ i s → code[i]? = some (.label l) → Visits T code s₀ (i + 1) s

namespace Consistent

variable {T : Transfer σ} {code : List Code} {states : Nat → σ}

/-- Execution meets no other states than the consistent ones. -/
theorem eq_of_visits (h : Consistent T code states) {i : Nat} {s : σ}
    (hv : Visits T code (states 0) i s) : s = states i := by
  induction hv with
  | start => rfl
  | instr _ hi ht hj ih =>
      subst ih
      obtain ⟨⟨s₁, ht₁, hsucc⟩, -⟩ := h _ _ hi
      rw [ht₁] at ht
      rw [hsucc _ hj, Option.some.inj ht]
  | label _ hi ih =>
      subst ih
      exact (h _ _ hi).symm

/-- Execution comes to the end of code without returns whose jumps all go forward. -/
theorem visits_end (h : Consistent T code states)
    (hforward : ∀ (i : Nat) (x : Instr) (jump : Jump), code[i]? = some (.instr x) →
      x.jump? = some jump → ∃ j, i < j ∧ code[j]? = some (.label jump.target))
    (hstays : ∀ (i : Nat) (x : Instr), code[i]? = some (.instr x) →
      x.fallsThrough = true ∨ ∃ jump, x.jump? = some jump) :
    Visits T code (states 0) code.length (states code.length) := by
  -- from any place that is met, the end is met: each step goes down the code
  suffices hfrom : ∀ n i, code.length - i = n → i ≤ code.length →
      Visits T code (states 0) i (states i) →
      Visits T code (states 0) code.length (states code.length) from
    hfrom _ 0 rfl (Nat.zero_le _) .start
  intro n
  induction n using Nat.strongRecOn with
  | ind n ih =>
      intro i hn hle hv
      by_cases hend : i = code.length
      · rwa [hend] at hv
      · have hlt : i < code.length := by omega
        have hi : code[i]? = some code[i] := List.getElem?_eq_getElem hlt
        cases hc : code[i] with
        | instr x =>
            rw [hc] at hi
            obtain ⟨⟨s, ht, hsucc⟩, -⟩ := h _ _ hi
            have hnext : ∃ j, i < j ∧ j ≤ code.length ∧ Successor code i x j := by
              rcases hstays i x hi with hfalls | ⟨jump, hjump⟩
              · exact ⟨i + 1, by omega, hlt, .inl ⟨hfalls, rfl⟩⟩
              · obtain ⟨j, hj, hat⟩ := hforward i x jump hi hjump
                have hjlt : j < code.length := (List.getElem?_eq_some_iff.mp hat).1
                exact ⟨j, hj, by omega, .inr ⟨jump, hjump, hat⟩⟩
            obtain ⟨j, hij, hj, hs⟩ := hnext
            refine ih (code.length - j) (by omega) j rfl hj ?_
            rw [hsucc j hs]
            exact hv.instr hi ht hs
        | label l =>
            rw [hc] at hi
            refine ih (code.length - (i + 1)) (by omega) (i + 1) rfl hlt ?_
            have hsame : states (i + 1) = states i := h _ _ hi
            rw [hsame]
            exact hv.label hi
        | _ =>
            rw [hc] at hi
            exact (h _ _ hi).elim

end Consistent

-- ============================================================================
-- Reading code once
-- ============================================================================

/-- `Fits T Λ N s parts s'`: read from start to end, the code leads from the state `s` to
    the state `s'`, if `Λ` gives the states of labels. After an instruction without a
    successor below it, any state is possible. `N` holds of the states around each
    construct. -/
inductive Fits (T : Transfer σ) (Λ : Label → σ) (N : SourceNode → σ → σ → Prop) :
    σ → List Fragment → σ → Prop where
  | nil {s : σ} : Fits T Λ N s [] s
  | step {s s₁ s' : σ} {i : Instr} {rest : List Fragment} :
      T i s = some s₁ → i.fallsThrough = true →
      (∀ jump, i.jump? = some jump → Λ jump.target = s₁) →
      Fits T Λ N s₁ rest s' → Fits T Λ N s (.instr i :: rest) s'
  | leave {s s₁ s₂ s' : σ} {i : Instr} {rest : List Fragment} :
      T i s = some s₁ → i.fallsThrough = false →
      (∀ jump, i.jump? = some jump → Λ jump.target = s₁) →
      Fits T Λ N s₂ rest s' → Fits T Λ N s (.instr i :: rest) s'
  | label {s s' : σ} {l : Label} {rest : List Fragment} :
      Λ l = s → Fits T Λ N s rest s' → Fits T Λ N s (.label l :: rest) s'
  | expr {s s₁ s' : σ} {e : Expr} {p rest : List Fragment} :
      N (.expr e) s s₁ → Fits T Λ N s p s₁ → Fits T Λ N s₁ rest s' →
      Fits T Λ N s (.expr e p :: rest) s'
  | stmt {s s₁ s' : σ} {x : Stmt} {p rest : List Fragment} :
      N (.stmt x) s s₁ → Fits T Λ N s p s₁ → Fits T Λ N s₁ rest s' →
      Fits T Λ N s (.stmt x p :: rest) s'

/-- Instructions that neither jump nor end the method. -/
def Instr.isPlain : Instr → Bool
  | .branch _ _ | .goto _ | .ret | .areturn => false
  | _ => true

theorem Instr.fallsThrough_of_isPlain {i : Instr} (h : i.isPlain = true) :
    i.fallsThrough = true := by
  cases i <;> simp_all [isPlain, fallsThrough]

theorem Instr.jump?_of_isPlain {i : Instr} (h : i.isPlain = true) : i.jump? = none := by
  cases i <;> simp_all [isPlain, jump?]

/-- The state after plain instructions in a row. -/
def runPlain (T : Transfer σ) : List Instr → σ → Option σ
  | [], s => some s
  | i :: rest, s => if i.isPlain then (T i s).bind (runPlain T rest) else none

section Fits

variable {T : Transfer σ} {Λ : Label → σ} {N : SourceNode → σ → σ → Prop} {s s₁ s₂ s' : σ}

theorem Fits.append {p q : List Fragment} (hp : Fits T Λ N s p s₁) (hq : Fits T Λ N s₁ q s') :
    Fits T Λ N s (p ++ q) s' := by
  induction hp with
  | nil => exact hq
  | step ht hf hj _ ih => exact .step ht hf hj (ih hq)
  | leave ht hf hj _ ih => exact .leave ht hf hj (ih hq)
  | label hl _ ih => exact .label hl (ih hq)
  | expr hn hin _ _ ih => exact .expr hn hin (ih hq)
  | stmt hn hin _ _ ih => exact .stmt hn hin (ih hq)

theorem Fits.plain {rest : List Fragment} (is : List Instr) (h : runPlain T is s = some s₁)
    (hrest : Fits T Λ N s₁ rest s') : Fits T Λ N s (is.map Fragment.instr ++ rest) s' := by
  induction is generalizing s with
  | nil =>
      obtain rfl : s = s₁ := Option.some.inj h
      exact hrest
  | cons i is ih =>
      rw [runPlain] at h
      split at h
      · next hplain =>
          obtain ⟨s₂, ht, hrun⟩ := Option.bind_eq_some_iff.mp h
          refine .step ht (Instr.fallsThrough_of_isPlain hplain) ?_ (ih hrun)
          intro jump hjump
          rw [Instr.jump?_of_isPlain hplain] at hjump
          cases hjump
      · cases h

theorem Fits.branch {b : Branch} {l : Label} {rest : List Fragment}
    (ht : T (.branch b l) s = some s₁) (hl : Λ l = s₁) (hrest : Fits T Λ N s₁ rest s') :
    Fits T Λ N s (.instr (.branch b l) :: rest) s' := by
  refine .step ht rfl ?_ hrest
  rintro jump ⟨⟩
  exact hl

theorem Fits.goto {l : Label} {rest : List Fragment} (ht : T (.goto l) s = some s₁)
    (hl : Λ l = s₁) (hrest : Fits T Λ N s₂ rest s') :
    Fits T Λ N s (.instr (.goto l) :: rest) s' := by
  refine .leave ht rfl ?_ hrest
  rintro jump ⟨⟩
  exact hl

end Fits

-- ============================================================================
-- States by place
-- ============================================================================

/-- One line of code leads from the state `s` to the state `s'` below it. -/
def Code.Leads (T : Transfer σ) (Λ : Label → σ) (s s' : σ) : Code → Prop
  | .instr i => ∃ s₁, T i s = some s₁ ∧ (i.fallsThrough = true → s' = s₁) ∧
      ∀ jump, i.jump? = some jump → Λ jump.target = s₁
  | .label l => Λ l = s ∧ s' = s
  | _ => False

/-- States for the places of code that starts at the place `start`. -/
structure Placed (T : Transfer σ) (Λ : Label → σ) (N : SourceNode → σ → σ → Prop)
    (parts : List Fragment) (start : Nat) (states : Nat → σ) : Prop where
  leads : ∀ (i : Nat) (c : Code), (Fragment.codeAll parts)[i]? = some c →
    c.Leads T Λ (states (start + i)) (states (start + i + 1))
  spans : ∀ span ∈ Fragment.spansAll start parts,
    N span.node (states span.start) (states span.stop)

mutual

theorem Fragment.span_bounds : ∀ (p : Fragment) (start : Nat), ∀ span ∈ p.spans start,
    start ≤ span.start ∧ span.start ≤ span.stop ∧ span.stop ≤ start + p.code.length
  | .instr _, start, span, h => by simp at h
  | .label _, start, span, h => by simp at h
  | .expr e parts, start, span, h => by
      rw [spans_expr, List.mem_cons] at h
      rw [code_expr]
      rcases h with rfl | h
      · exact ⟨Nat.le_refl _, Nat.le_add_right _ _, Nat.le_refl _⟩
      · exact spanAll_bounds parts start span h
  | .stmt s parts, start, span, h => by
      rw [spans_stmt, List.mem_cons] at h
      rw [code_stmt]
      rcases h with rfl | h
      · exact ⟨Nat.le_refl _, Nat.le_add_right _ _, Nat.le_refl _⟩
      · exact spanAll_bounds parts start span h

/-- A construct lies inside of the code it is a part of. -/
theorem Fragment.spanAll_bounds : ∀ (parts : List Fragment) (start : Nat),
    ∀ span ∈ Fragment.spansAll start parts, start ≤ span.start ∧ span.start ≤ span.stop ∧
      span.stop ≤ start + (Fragment.codeAll parts).length
  | [], start, span, h => by simp at h
  | p :: rest, start, span, h => by
      rw [spansAll_cons, List.mem_append] at h
      rw [codeAll_cons, List.length_append]
      rcases h with h | h
      · have hp := span_bounds p start span h
        omega
      · have hrest := spanAll_bounds rest (start + p.code.length) span h
        omega

end

section Places

variable {T : Transfer σ} {Λ : Label → σ} {N : SourceNode → σ → σ → Prop}

/-- The states of code in two parts, if they meet. -/
theorem Placed.glue {p : Fragment} {rest : List Fragment} {start : Nat} {first second : Nat → σ}
    (hp : Placed T Λ N [p] start first)
    (hrest : Placed T Λ N rest (start + p.code.length) second)
    (hmeet : first (start + p.code.length) = second (start + p.code.length)) :
    Placed T Λ N (p :: rest) start
      (fun x => if x < start + p.code.length then first x else second x) := by
  have hle : ∀ x, x ≤ start + p.code.length →
      (if x < start + p.code.length then first x else second x) = first x := by
    intro x hx
    split
    · rfl
    · have heq : x = start + p.code.length := by omega
      rw [heq, hmeet]
  have hge : ∀ x, start + p.code.length ≤ x →
      (if x < start + p.code.length then first x else second x) = second x := by
    intro x hx
    rw [if_neg (by omega)]
  refine ⟨?_, ?_⟩
  · intro i c hi
    rw [Fragment.codeAll_cons] at hi
    by_cases hlt : i < p.code.length
    · rw [List.getElem?_append_left hlt] at hi
      rw [hle _ (by omega), hle _ (by omega)]
      exact hp.leads i c (by simpa using hi)
    · rw [List.getElem?_append_right (by omega)] at hi
      have hstep := hrest.leads _ c hi
      rw [show start + p.code.length + (i - p.code.length) = start + i by omega] at hstep
      rw [hge _ (by omega), hge _ (by omega)]
      exact hstep
  · intro span hspan
    rw [Fragment.spansAll_cons, List.mem_append] at hspan
    rcases hspan with hspan | hspan
    · have hbounds := Fragment.span_bounds p start span hspan
      rw [hle _ (by omega), hle _ (by omega)]
      exact hp.spans span (by simpa using hspan)
    · have hbounds := Fragment.spanAll_bounds rest _ span hspan
      rw [hge _ (by omega), hge _ (by omega)]
      exact hrest.spans span hspan

/-- The places of `parts`, from the state `s` at `start` to the state `s'` at the end, have
    states. -/
def HasStates (T : Transfer σ) (Λ : Label → σ) (N : SourceNode → σ → σ → Prop) (s : σ)
    (parts : List Fragment) (s' : σ) (start : Nat) : Prop :=
  ∃ states, states start = s ∧ states (start + (Fragment.codeAll parts).length) = s' ∧
    Placed T Λ N parts start states

theorem HasStates.cons {s s₁ s' : σ} {p : Fragment} {rest : List Fragment} {start : Nat}
    (hp : HasStates T Λ N s [p] s₁ start)
    (hrest : HasStates T Λ N s₁ rest s' (start + p.code.length)) :
    HasStates T Λ N s (p :: rest) s' start := by
  obtain ⟨first, hfirst, hmiddle, hplaced⟩ := hp
  obtain ⟨second, hsecond, hlast, hplaced'⟩ := hrest
  have hlength : (Fragment.codeAll [p]).length = p.code.length := by simp
  rw [hlength] at hmiddle
  refine ⟨_, ?_, ?_, hplaced.glue hplaced' (hmiddle.trans hsecond.symm)⟩
  · by_cases hempty : p.code.length = 0
    · rw [if_neg (by omega), ← hfirst]
      rw [hempty] at hmiddle hsecond
      exact hsecond.trans hmiddle.symm
    · rw [if_pos (by omega), hfirst]
  · rw [if_neg (by simp), Fragment.codeAll_cons, List.length_append, ← Nat.add_assoc, hlast]

/-- One line of code has a state above and one below it. -/
theorem HasStates.line {s s₁ : σ} {p : Fragment} {c : Code} {start : Nat} (hcode : p.code = [c])
    (hspans : p.spans start = []) (h : c.Leads T Λ s s₁) : HasStates T Λ N s [p] s₁ start := by
  refine ⟨fun x => if x = start then s else s₁, by simp, by simp [hcode], ?_, ?_⟩
  · intro i d hi
    rw [Fragment.codeAll_cons, hcode, Fragment.codeAll_nil, List.append_nil] at hi
    obtain ⟨rfl, rfl⟩ : i = 0 ∧ c = d := by
      cases i with
      | zero => simpa using hi
      | succ i => simp at hi
    simpa using h
  · simp [hspans]

/-- Code that fits has a state for every place. -/
theorem Fits.hasStates {s s' : σ} {parts : List Fragment} (h : Fits T Λ N s parts s') :
    ∀ start, HasStates T Λ N s parts s' start := by
  induction h with
  | @nil s =>
      intro start
      exact ⟨fun _ => s, rfl, rfl, by simp, by simp⟩
  | step ht hf hj _ ih =>
      intro start
      refine .cons (.line (Fragment.code_instr _) (Fragment.spans_instr _ _) ?_) (ih _)
      exact ⟨_, ht, fun _ => rfl, hj⟩
  | leave ht hf hj _ ih =>
      intro start
      refine .cons (.line (Fragment.code_instr _) (Fragment.spans_instr _ _) ?_) (ih _)
      exact ⟨_, ht, fun hfalls => absurd hfalls (by simp [hf]), hj⟩
  | label hl _ ih =>
      intro start
      refine .cons (.line (Fragment.code_label _) (Fragment.spans_label _ _) ?_) (ih _)
      exact ⟨hl, rfl⟩
  | @expr s s₁ s' e p rest hn _ _ ihp ih =>
      intro start
      obtain ⟨states, hfirst, hlast, hplaced⟩ := ihp start
      refine .cons ⟨states, hfirst, by simpa using hlast, ?_, ?_⟩ (ih _)
      · simpa using hplaced.leads
      · simpa [hfirst, hlast, hn] using hplaced.spans
  | @stmt s s₁ s' x p rest hn _ _ ihp ih =>
      intro start
      obtain ⟨states, hfirst, hlast, hplaced⟩ := ihp start
      refine .cons ⟨states, hfirst, by simpa using hlast, ?_, ?_⟩ (ih _)
      · simpa using hplaced.leads
      · simpa [hfirst, hlast, hn] using hplaced.spans

end Places

-- ============================================================================
-- Labels with states
-- ============================================================================

/-- The code leads from the state `s` to the state `s'`, whatever the states of labels
    are that it does not declare. -/
def Flows (T : Transfer σ) (N : SourceNode → σ → σ → Prop) (s : σ) (parts : List Fragment)
    (s' : σ) : Prop :=
  ∃ L : List (Label × σ), L.map Prod.fst = declared (Fragment.codeAll parts) ∧
    ∀ Λ : Label → σ, (∀ entry ∈ L, Λ entry.1 = entry.2) → Fits T Λ N s parts s'

/-- Labels that differ can be given any states. -/
theorem exists_labelling [Inhabited σ] {L : List (Label × σ)} (h : (L.map Prod.fst).Nodup) :
    ∃ Λ : Label → σ, ∀ entry ∈ L, Λ entry.1 = entry.2 := by
  refine ⟨fun l => ((L.find? fun entry => entry.1 = l).map Prod.snd).getD default, ?_⟩
  induction L with
  | nil => simp
  | cons first rest ih =>
      rw [List.map_cons, List.nodup_cons] at h
      intro entry hentry
      rcases List.mem_cons.mp hentry with rfl | hentry
      · simp
      · have hne : first.1 ≠ entry.1 := by
          intro heq
          exact h.1 (heq ▸ List.mem_map_of_mem hentry)
        simpa [List.find?_cons, hne] using ih h.2 entry hentry

section Flows

variable {T : Transfer σ} {N : SourceNode → σ → σ → Prop}

/-- Code that flows from a state to another, and whose labels differ, has a consistent
    state for every place. -/
theorem Flows.exists_states [Inhabited σ] {s s' : σ} {parts : List Fragment} {l : Label}
    {count loops : Nat} (h : Flows T N s parts s')
    (hlabels : Labelled l count loops (Fragment.codeAll parts)) (hcount : count ≤ UInt32.size) :
    ∃ states, states 0 = s ∧ states (Fragment.codeAll parts).length = s' ∧
      Consistent T (Fragment.codeAll parts) states ∧
      ∀ span ∈ Fragment.spansAll 0 parts, N span.node (states span.start) (states span.stop) := by
  obtain ⟨L, hkeys, hfits⟩ := h
  obtain ⟨Λ, hΛ⟩ := exists_labelling (hkeys ▸ hlabels.declared_nodup hcount)
  obtain ⟨states, hfirst, hlast, hplaced⟩ := (hfits Λ hΛ).hasStates 0
  have hleads : ∀ (i : Nat) (c : Code), (Fragment.codeAll parts)[i]? = some c →
      c.Leads T Λ (states i) (states (i + 1)) := by
    simpa using hplaced.leads
  refine ⟨states, hfirst, by simpa using hlast, ?_, hplaced.spans⟩
  intro i c hi
  have hstep := hleads i c hi
  cases c with
  | instr i =>
      obtain ⟨s₁, ht, hfalls, hjump⟩ := hstep
      refine ⟨⟨s₁, ht, ?_⟩, fun jump hj => hlabels.declares_target hi hj⟩
      rintro j (⟨hf, rfl⟩ | ⟨jump, hj, hat⟩)
      · exact hfalls hf
      · -- the label at the place has the state that the jump leads to
        exact (hleads j _ hat).1.symm.trans (hjump jump hj)
  | label l => exact hstep.2
  | _ => exact hstep

theorem Flows.nil {s : σ} : Flows T N s [] s :=
  ⟨[], by simp, fun _ _ => .nil⟩

theorem Flows.append {s s₁ s' : σ} {p q : List Fragment} (hp : Flows T N s p s₁)
    (hq : Flows T N s₁ q s') : Flows T N s (p ++ q) s' := by
  obtain ⟨Lp, hkp, hfp⟩ := hp
  obtain ⟨Lq, hkq, hfq⟩ := hq
  refine ⟨Lp ++ Lq, by simp [hkp, hkq], fun Λ hΛ => ?_⟩
  rw [List.forall_mem_append] at hΛ
  exact (hfp Λ hΛ.1).append (hfq Λ hΛ.2)

theorem Flows.expr {s s₁ s' : σ} {e : Expr} {p rest : List Fragment} (hn : N (.expr e) s s₁)
    (hp : Flows T N s p s₁) (hrest : Flows T N s₁ rest s') :
    Flows T N s (.expr e p :: rest) s' := by
  obtain ⟨Lp, hkp, hfp⟩ := hp
  obtain ⟨Lq, hkq, hfq⟩ := hrest
  refine ⟨Lp ++ Lq, by simp [hkp, hkq], fun Λ hΛ => ?_⟩
  rw [List.forall_mem_append] at hΛ
  exact .expr hn (hfp Λ hΛ.1) (hfq Λ hΛ.2)

theorem Flows.stmt {s s₁ s' : σ} {x : Stmt} {p rest : List Fragment} (hn : N (.stmt x) s s₁)
    (hp : Flows T N s p s₁) (hrest : Flows T N s₁ rest s') :
    Flows T N s (.stmt x p :: rest) s' := by
  obtain ⟨Lp, hkp, hfp⟩ := hp
  obtain ⟨Lq, hkq, hfq⟩ := hrest
  refine ⟨Lp ++ Lq, by simp [hkp, hkq], fun Λ hΛ => ?_⟩
  rw [List.forall_mem_append] at hΛ
  exact .stmt hn (hfp Λ hΛ.1) (hfq Λ hΛ.2)

theorem Flows.plain {s s₁ s' : σ} {rest : List Fragment} (is : List Instr)
    (h : runPlain T is s = some s₁) (hrest : Flows T N s₁ rest s') :
    Flows T N s (is.map Fragment.instr ++ rest) s' := by
  obtain ⟨L, hkeys, hfits⟩ := hrest
  exact ⟨L, by simp [hkeys], fun Λ hΛ => (hfits Λ hΛ).plain is h⟩

/-- Operands of a comparison are turned into a boolean: `s` has the operands, `s₁` does
    not, `s₂` has a primitive value in their place and `s'` its wrapper. -/
theorem Flows.condition {s s₁ s₂ s' : σ} {negated : Branch} {otherwise after : Label}
    (hbranch : T (.branch negated otherwise) s = some s₁)
    (htrue : runPlain T [.iconst1] s₁ = some s₂) (hgoto : T (.goto after) s₂ = some s₂)
    (hfalse : runPlain T [.iconst0] s₁ = some s₂)
    (hbox : runPlain T [.invoke .booleanValueOf] s₂ = some s') :
    Flows T N s (conditionParts negated otherwise after) s' := by
  refine ⟨[(otherwise, s₁), (after, s₂)], by simp [conditionParts], fun Λ hΛ => ?_⟩
  simp only [List.forall_mem_cons] at hΛ
  obtain ⟨hotherwise, hafter, -⟩ := hΛ
  have hlast : Fits T Λ N s₂ [.label after, .instr (.invoke .booleanValueOf)] s' :=
    .label hafter (.plain [.invoke .booleanValueOf] hbox .nil)
  exact .branch hbranch hotherwise (.plain [.iconst1] htrue
    (.goto hgoto hafter (.label hotherwise (.plain [.iconst0] hfalse hlast))))

/-- The left operand of a connective decides, or the right one does: `s₁` and `s₄` have a
    wrapper on top, `s₂` and `s₅` its primitive value, and `s₃` neither. -/
theorem Flows.logic {s s₁ s₂ s₃ s₄ s₅ s' : σ} {op : LogicOp} {l r : Expr}
    {pl pr : List Fragment} {skip after : Label} (hl : N (.expr l) s s₁)
    (hpl : Flows T N s pl s₁) (hunbox : runPlain T [.invoke .booleanBooleanValue] s₁ = some s₂)
    (hskip : T (.branch op.skip skip) s₂ = some s₃) (hr : N (.expr r) s₃ s₄)
    (hpr : Flows T N s₃ pr s₄)
    (hunbox' : runPlain T [.invoke .booleanBooleanValue] s₄ = some s₅)
    (hgoto : T (.goto after) s₅ = some s₅) (hdecided : runPlain T [op.decided] s₃ = some s₅)
    (hbox : runPlain T [.invoke .booleanValueOf] s₅ = some s') :
    Flows T N s [.expr l pl, .instr (.invoke .booleanBooleanValue), .instr (.branch op.skip skip),
      .expr r pr, .instr (.invoke .booleanBooleanValue), .instr (.goto after), .label skip,
      .instr op.decided, .label after, .instr (.invoke .booleanValueOf)] s' := by
  obtain ⟨Ll, hkl, hfl⟩ := hpl
  obtain ⟨Lr, hkr, hfr⟩ := hpr
  refine ⟨Ll ++ Lr ++ [(skip, s₃), (after, s₅)], by simp [hkl, hkr], fun Λ hΛ => ?_⟩
  simp only [List.forall_mem_append, List.forall_mem_cons] at hΛ
  obtain ⟨⟨hΛl, hΛr⟩, hΛskip, hΛafter, -⟩ := hΛ
  have hlast : Fits T Λ N s₅ [.label after, .instr (.invoke .booleanValueOf)] s' :=
    .label hΛafter (.plain [.invoke .booleanValueOf] hbox .nil)
  have hright := Fits.expr hr (hfr Λ hΛr) (.plain [.invoke .booleanBooleanValue] hunbox'
    (.goto hgoto hΛafter (.label hΛskip (.plain [op.decided] hdecided hlast))))
  exact .expr hl (hfl Λ hΛl) (.plain [.invoke .booleanBooleanValue] hunbox
    (.branch hskip hΛskip hright))

end Flows

end JasminGen
