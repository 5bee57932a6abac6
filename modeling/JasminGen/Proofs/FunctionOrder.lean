/-
  JasminGen.Proofs.FunctionOrder

  The order of functions does not matter. The methods of functions take their labels one
  after the other, so in another order each method has the labels of another interval,
  and nothing else of it changes. All methods are renumbered at once by one injective
  renaming of labels: an exchange of two neighbours is an exchange of two intervals, and
  every order is reached by such exchanges.

  Main definitions: `Label.renumber`, `Renames`, `IsMethod`. Main results:
  `exists_renames`, `generate_reordered`.
-/

import JasminGen.Proofs.Actions
import JasminGen.Proofs.Relocation
import Mathlib.Logic.Function.Basic

namespace JasminGen

open Gen
open FunctionDef (actionsInRow)

-- ============================================================================
-- Renaming twice
-- ============================================================================

variable {ρ ρ' : Label → Label}

theorem Action.relabel_relabel (ρ ρ' : Label → Label) (action : Action) :
    (action.relabel ρ).relabel ρ' = action.relabel (ρ' ∘ ρ) := by
  cases action with
  | code c =>
      cases c with
      | instr i => cases i <;> rfl
      | _ => rfl
  | _ => rfl

theorem map_relabel_relabel (ρ ρ' : Label → Label) (acts : List Action) :
    (acts.map (Action.relabel ρ)).map (Action.relabel ρ') =
      acts.map (Action.relabel (ρ' ∘ ρ)) := by
  rw [List.map_map]
  exact List.map_congr_left fun action _ => action.relabel_relabel ρ ρ'

/-- The labels that actions declare or jump to. -/
def labelsOf (acts : List Action) : List Label :=
  declared (codesOf acts) ++ (jumps (codesOf acts)).map Jump.target

theorem Code.relabel_congr {c : Code} (hdeclared : ∀ l, c.declared? = some l → ρ l = ρ' l)
    (hjump : ∀ j, c.jump? = some j → ρ j.target = ρ' j.target) : c.relabel ρ = c.relabel ρ' := by
  cases c with
  | label l => exact congrArg Code.label (hdeclared l rfl)
  | instr i =>
      cases i with
      | branch condition l =>
          exact congrArg (fun l => Code.instr (.branch condition l)) (hjump _ rfl)
      | goto l => exact congrArg (fun l => Code.instr (.goto l)) (hjump _ rfl)
      | _ => rfl
  | _ => rfl

/-- Only the labels that occur matter for a renaming. -/
theorem map_relabel_congr {acts : List Action} (h : ∀ l ∈ labelsOf acts, ρ l = ρ' l) :
    acts.map (Action.relabel ρ) = acts.map (Action.relabel ρ') := by
  refine List.map_congr_left fun action haction => ?_
  cases action with
  | code c =>
      have hc : c ∈ codesOf acts := List.mem_filterMap.mpr ⟨_, haction, rfl⟩
      refine congrArg Action.code (Code.relabel_congr ?_ ?_)
      · intro l hl
        exact h l (List.mem_append_left _ (List.mem_filterMap.mpr ⟨c, hc, hl⟩))
      · intro j hj
        have hmem : j ∈ jumps (codesOf acts) := List.mem_filterMap.mpr ⟨c, hc, hj⟩
        exact h j.target (List.mem_append_right _ (List.mem_map_of_mem hmem))
  | _ => rfl

-- ============================================================================
-- The labels of a function
-- ============================================================================

namespace FunctionDef

variable {fn : FunctionDef} {S : Setting}

/-- A function that is lowered first has the first labels. -/
theorem Lowers.label_lt (h : fn.Lowers S) {l : Label} (hl : l ∈ labelsOf (fn.actions S)) :
    ∃ j, j < fn.labelCount ∧ l = (⟨0⟩ : Label).advance j := by
  obtain ⟨m, hm, -, -, hcodes, -⟩ := lower_method rfl h.emits
  have hlabelled := hm.labelled.2
  have hmem : l ∈ labelsFrom ⟨0⟩ fn.labelCount := by
    rw [← List.count_pos_iff]
    rw [labelsOf, declared_consists hcodes, jumps_consists hcodes, List.flatMap_singleton,
      List.flatMap_singleton, List.mem_append, ← List.count_pos_iff, ← List.count_pos_iff,
      hlabelled.declared, hlabelled.targets, or_self] at hl
    exact hl
  obtain ⟨j, hj, rfl⟩ := List.mem_map.mp hmem
  exact ⟨j, List.mem_range.mp hj, rfl⟩

/-- Renaming the labels of a function moves it, if it moves each of its labels. -/
theorem Lowers.actionsFrom_relabel (h : fn.Lowers S) {k k' : Nat}
    (hρ : ∀ j < fn.labelCount, ρ ((⟨0⟩ : Label).advance (k + j)) = (⟨0⟩ : Label).advance (k' + j)) :
    (fn.actionsFrom S k).map (Action.relabel ρ) = fn.actionsFrom S k' := by
  rw [actionsFrom, actionsFrom, map_relabel_relabel]
  refine map_relabel_congr fun l hl => ?_
  obtain ⟨j, hj, rfl⟩ := h.label_lt hl
  rw [Function.comp_apply, Label.advance_advance, Label.advance_advance, Nat.add_comm j,
    Nat.add_comm j]
  exact hρ j hj

/-- A renaming that changes none of its labels leaves a function alone. -/
theorem Lowers.actionsFrom_fixed (h : fn.Lowers S) {k : Nat}
    (hsize : k + fn.labelCount ≤ UInt32.size)
    (hρ : ∀ l : Label, k ≤ l.number.toNat → l.number.toNat < k + fn.labelCount → ρ l = l) :
    (fn.actionsFrom S k).map (Action.relabel ρ) = fn.actionsFrom S k := by
  refine h.actionsFrom_relabel fun j hj => ?_
  have hnumber : ((⟨0⟩ : Label).advance (k + j)).number.toNat = k + j :=
    Label.zero_advance_toNat (by omega)
  exact hρ _ (by omega) (by omega)

end FunctionDef

-- ============================================================================
-- Exchanging intervals of labels
-- ============================================================================

/-- Rename a label by its number. -/
def Label.renumber (σ : Nat → Nat) (l : Label) : Label :=
  ⟨UInt32.ofNat (σ l.number.toNat)⟩

theorem Label.renumber_advance (σ : Nat → Nat) {n : Nat} (h : n < UInt32.size) :
    ((⟨0⟩ : Label).advance n).renumber σ = (⟨0⟩ : Label).advance (σ n) := by
  rw [renumber, zero_advance_toNat h, advance, UInt32.zero_add]

theorem Label.renumber_eq_self {σ : Nat → Nat} {l : Label} (h : σ l.number.toNat = l.number.toNat) :
    l.renumber σ = l := by
  rw [renumber, h, UInt32.ofNat_toNat]

theorem Label.renumber_injective {σ : Nat → Nat} (hlt : ∀ n < UInt32.size, σ n < UInt32.size)
    (hσ : Function.Injective σ) : Function.Injective (renumber σ) := by
  intro l l' heq
  have hnumber : ∀ l : Label, (l.renumber σ).number.toNat = σ l.number.toNat := fun l =>
    UInt32.toNat_ofNat_of_lt (hlt _ l.number.toNat_lt)
  have hsame := congrArg (fun l : Label => l.number.toNat) heq
  rw [hnumber, hnumber] at hsame
  exact congrArg Label.mk (UInt32.toNat_inj.mp (hσ hsame))

/-- Exchange the `a` numbers from `k` on and the `b` numbers after them. -/
def exchange (k a b n : Nat) : Nat :=
  if n < k then n
  else if n < k + a then n + b
  else if n < k + a + b then n - a
  else n

theorem exchange_injective (k a b : Nat) : Function.Injective (exchange k a b) := by
  intro m n h
  unfold exchange at h
  split_ifs at h <;> omega

theorem exchange_first {k a b j : Nat} (hj : j < a) : exchange k a b (k + j) = k + b + j := by
  unfold exchange
  split_ifs <;> omega

theorem exchange_second {k a b j : Nat} (hj : j < b) : exchange k a b (k + a + j) = k + j := by
  unfold exchange
  split_ifs <;> omega

theorem exchange_outside {k a b n : Nat} (h : n < k ∨ k + a + b ≤ n) : exchange k a b n = n := by
  unfold exchange
  split_ifs <;> omega

theorem exchange_lt {k a b n size : Nat} (hsize : k + a + b ≤ size) (hn : n < size) :
    exchange k a b n < size := by
  unfold exchange
  split_ifs <;> omega

-- ============================================================================
-- Renaming methods
-- ============================================================================

/-- Rename the labels of a function's method. -/
def relabelMethod (ρ : Label → Label) (m : FunctionDef × List Action) : FunctionDef × List Action :=
  (m.1, m.2.map (Action.relabel ρ))

/-- The renaming carries the methods of functions in a row to those in another order. It
    changes no label but theirs, which are numbered from `k` on. -/
structure Renames (S : Setting) (k : Nat) (fns fns' : List FunctionDef) (ρ : Label → Label) :
    Prop where
  injective : Function.Injective ρ
  below : ∀ l : Label, l.number.toNat < k → ρ l = l
  above : ∀ l : Label, k + (fns.map FunctionDef.labelCount).sum ≤ l.number.toNat → ρ l = l
  methods : (actionsInRow S k fns').Perm ((actionsInRow S k fns).map (relabelMethod ρ))

/-- A renaming of earlier labels changes nothing. -/
theorem actionsInRow_fixed {S : Setting} :
    ∀ {fns : List FunctionDef} {k : Nat}, (∀ fn ∈ fns, fn.Lowers S) →
      k + (fns.map FunctionDef.labelCount).sum ≤ UInt32.size →
      (∀ l : Label, k ≤ l.number.toNat → ρ l = l) →
      (actionsInRow S k fns).map (relabelMethod ρ) = actionsInRow S k fns
  | [], _, _, _, _ => rfl
  | fn :: rest, k, hlowers, hsize, hρ => by
      obtain ⟨hfn, hrest⟩ := List.forall_mem_cons.mp hlowers
      rw [List.map_cons, List.sum_cons] at hsize
      have hfirst := hfn.actionsFrom_fixed (k := k) (by omega) fun l hl _ => hρ l hl
      have hothers := actionsInRow_fixed hrest (k := k + fn.labelCount) (by omega)
        fun l hl => hρ l (by omega)
      rw [actionsInRow, List.map_cons, relabelMethod, hfirst, hothers]

/-- Two neighbours change places with their labels. -/
theorem renames_exchange {S : Setting} {fn other : FunctionDef} {rest : List FunctionDef} {k : Nat}
    (hlowers : ∀ g ∈ fn :: other :: rest, g.Lowers S)
    (hsize : k + ((fn :: other :: rest).map FunctionDef.labelCount).sum ≤ UInt32.size) :
    Renames S k (fn :: other :: rest) (other :: fn :: rest)
      (Label.renumber (exchange k fn.labelCount other.labelCount)) := by
  simp only [List.forall_mem_cons] at hlowers
  obtain ⟨hfn, hother, hrest⟩ := hlowers
  simp only [List.map_cons, List.sum_cons] at hsize
  have hstay : ∀ l : Label,
      l.number.toNat < k ∨ k + fn.labelCount + other.labelCount ≤ l.number.toNat →
        l.renumber (exchange k fn.labelCount other.labelCount) = l :=
    fun l hl => Label.renumber_eq_self (exchange_outside hl)
  refine ⟨Label.renumber_injective (fun n hn => exchange_lt (by omega) hn)
    (exchange_injective _ _ _), fun l hl => hstay l (.inl hl), fun l hl => hstay l (.inr ?_), ?_⟩
  · simp only [List.map_cons, List.sum_cons] at hl
    omega
  · have hlater : (fn.actionsFrom S k).map (Action.relabel
          (Label.renumber (exchange k fn.labelCount other.labelCount))) =
        fn.actionsFrom S (k + other.labelCount) := by
      refine hfn.actionsFrom_relabel fun j hj => ?_
      rw [Label.renumber_advance _ (by omega), exchange_first hj]
    have hearlier : (other.actionsFrom S (k + fn.labelCount)).map (Action.relabel
          (Label.renumber (exchange k fn.labelCount other.labelCount))) =
        other.actionsFrom S k := by
      refine hother.actionsFrom_relabel fun j hj => ?_
      rw [Label.renumber_advance _ (by omega), exchange_second hj]
    have hfixed := actionsInRow_fixed (k := k + fn.labelCount + other.labelCount) hrest
      (by omega) fun l hl => hstay l (.inr hl)
    simp only [actionsInRow, List.map_cons, relabelMethod, hlater, hearlier]
    rw [show List.map _ _ = _ from hfixed, Nat.add_right_comm]
    exact .swap _ _ _

/-- In any other order the methods are the same up to one renaming of labels. -/
theorem exists_renames {S : Setting} {fns fns' : List FunctionDef} (hperm : fns.Perm fns') :
    ∀ {k : Nat}, (∀ fn ∈ fns, fn.Lowers S) →
      k + (fns.map FunctionDef.labelCount).sum ≤ UInt32.size →
      ∃ ρ, Renames S k fns fns' ρ := by
  -- an exchange of neighbours is the only step that renames; the next label is kept general,
  -- since each function moves the labels of those after it
  induction hperm with
  | nil =>
      intro k _ _
      exact ⟨id, Function.injective_id, fun _ _ => rfl, fun _ _ => rfl, .nil⟩
  | @cons fn rest rest' _ ih =>
      intro k hlowers hsize
      obtain ⟨hfn, hrest⟩ := List.forall_mem_cons.mp hlowers
      rw [List.map_cons, List.sum_cons] at hsize
      obtain ⟨ρ, hρ⟩ := ih (k := k + fn.labelCount) hrest (by omega)
      refine ⟨ρ, hρ.injective, fun l hl => hρ.below l (by omega), fun l hl => hρ.above l ?_, ?_⟩
      · rw [List.map_cons, List.sum_cons] at hl
        omega
      · have hfirst := hfn.actionsFrom_fixed (k := k) (by omega) fun l _ hl => hρ.below l hl
        rw [actionsInRow, actionsInRow, List.map_cons, relabelMethod, hfirst]
        exact hρ.methods.cons _
  | swap fn other rest =>
      intro k hlowers hsize
      exact ⟨_, renames_exchange hlowers hsize⟩
  | @trans fns₁ fns₂ fns₃ hperm₁ _ ih₁ ih₂ =>
      intro k hlowers hsize
      have hsum : (fns₁.map FunctionDef.labelCount).sum = (fns₂.map FunctionDef.labelCount).sum :=
        (hperm₁.map FunctionDef.labelCount).sum_nat
      have hlowers₂ : ∀ fn ∈ fns₂, fn.Lowers S := fun fn hfn => hlowers fn (hperm₁.mem_iff.mpr hfn)
      obtain ⟨ρ₁, hρ₁⟩ := ih₁ hlowers hsize
      obtain ⟨ρ₂, hρ₂⟩ := ih₂ hlowers₂ (hsum ▸ hsize)
      refine ⟨ρ₂ ∘ ρ₁, hρ₂.injective.comp hρ₁.injective, ?_, ?_, ?_⟩
      · intro l hl
        rw [Function.comp_apply, hρ₁.below l hl, hρ₂.below l hl]
      · intro l hl
        rw [Function.comp_apply, hρ₁.above l hl, hρ₂.above l (hsum ▸ hl)]
      · have hmap := hρ₁.methods.map (relabelMethod ρ₂)
        have hcomp : relabelMethod ρ₂ ∘ relabelMethod ρ₁ = relabelMethod (ρ₂ ∘ ρ₁) := by
          funext m
          exact congrArg (Prod.mk m.1) (map_relabel_relabel ρ₁ ρ₂ m.2)
        rw [List.map_map, hcomp] at hmap
        exact hρ₂.methods.trans hmap

-- ============================================================================
-- Methods by function
-- ============================================================================

/-- The actions write one method, with the given signature. -/
structure IsMethod (signature : String) (acts : List Action) : Prop where
  inUnit : InUnit acts
  codes : ∃ body, Inner body ∧ codesOf acts = .methodHeader signature :: (body ++ [.endMethod])

theorem codesOf_relabel (ρ : Label → Label) (acts : List Action) :
    codesOf (acts.map (Action.relabel ρ)) = (codesOf acts).map (Code.relabel ρ) := by
  rw [codesOf, codesOf, List.filterMap_map, List.map_filterMap]
  refine List.filterMap_congr fun action _ => ?_
  cases action <;> rfl

theorem IsMethod.relabel {signature : String} {acts : List Action} (h : IsMethod signature acts)
    (ρ : Label → Label) : IsMethod signature (acts.map (Action.relabel ρ)) := by
  obtain ⟨hunit, body, hbody, hcodes⟩ := h
  refine ⟨?_, body.map (Code.relabel ρ), ?_, ?_⟩
  · refine List.forall_mem_map.mpr fun action haction => ?_
    rcases hunit action haction with (⟨c, rfl⟩ | hcomment) | hreport
    · exact .inl (.inl ⟨c.relabel ρ, rfl⟩)
    · obtain ⟨t, rfl⟩ := hcomment
      exact .inl (.inr ⟨t, rfl⟩)
    · obtain ⟨line, rfl⟩ := hreport
      exact .inr ⟨line, rfl⟩
  · refine List.forall_mem_map.mpr fun c hc => ?_
    rcases hbody c hc with ⟨i, rfl⟩ | ⟨l, rfl⟩
    · exact .inl ⟨i.relabel ρ, rfl⟩
    · exact .inr ⟨ρ l, rfl⟩
  · rw [codesOf_relabel, hcodes, List.map_cons, List.map_append]
    rfl

namespace FunctionDef

/-- The signature that the method of a function is declared with. -/
def header (fn : FunctionDef) : String :=
  "public " ++ fn.name ++ fn.signature.descriptor

theorem Lowers.isMethod {program : Program} {options : Options} {fn : FunctionDef}
    (h : fn.Lowers (.ofProgram program options)) (hfn : fn ∈ program.functions)
    (hdistinct : (program.functions.map FunctionDef.name).Nodup) (k : Nat) :
    IsMethod fn.header (fn.actionsFrom (.ofProgram program options) k) := by
  obtain ⟨a⟩ := lower_actions h.emits
  have hsignature : a.signature = fn.signature := by
    have hfound := SymbolTable.function?_of_lookup a.lookup
    rw [show (Setting.ofProgram program options).symbols.function? fn.name = _ from
      SymbolTable.function?_eq hdistinct hfn] at hfound
    exact (Option.some.inj hfound).symm
  have hcodes := a.codes
  rw [hsignature] at hcodes
  exact IsMethod.relabel ⟨a.inUnit, _, Fragment.inner_codeAll _, hcodes⟩ _

theorem fst_actionsInRow (S : Setting) : ∀ (k : Nat) (fns : List FunctionDef),
    (actionsInRow S k fns).map Prod.fst = fns
  | _, [] => rfl
  | k, fn :: rest => congrArg (fn :: ·) (fst_actionsInRow S (k + fn.labelCount) rest)

theorem mem_actionsInRow {S : Setting} {m : FunctionDef × List Action} :
    ∀ {k : Nat} {fns : List FunctionDef}, m ∈ actionsInRow S k fns →
      m.1 ∈ fns ∧ ∃ k', m.2 = m.1.actionsFrom S k'
  | _, [], h => by simp [actionsInRow] at h
  | k, fn :: rest, h => by
      rcases List.mem_cons.mp h with rfl | h
      · exact ⟨List.mem_cons_self, k, rfl⟩
      · obtain ⟨hmem, hfrom⟩ := mem_actionsInRow h
        exact ⟨List.mem_cons_of_mem _ hmem, hfrom⟩

end FunctionDef

/-- Each function has one method. -/
theorem exists_method {ms : List (FunctionDef × List Action)} (h : (ms.map Prod.fst).Nodup) :
    ∃ method : FunctionDef → List Action, ∀ m ∈ ms, m.2 = method m.1 := by
  classical
  induction ms with
  | nil => exact ⟨fun _ => [], by simp⟩
  | cons m ms ih =>
      rw [List.map_cons, List.nodup_cons] at h
      obtain ⟨method, hmethod⟩ := ih h.2
      refine ⟨Function.update method m.1 m.2, List.forall_mem_cons.mpr ⟨?_, ?_⟩⟩
      · rw [Function.update_self]
      · intro other hother
        have hne : other.1 ≠ m.1 := fun heq => h.1 (heq ▸ List.mem_map_of_mem hother)
        rw [Function.update_of_ne hne, hmethod other hother]

theorem flatMap_actionsInRow {S : Setting} {k : Nat} {fns : List FunctionDef}
    {method : FunctionDef → List Action} (h : ∀ m ∈ actionsInRow S k fns, m.2 = method m.1) :
    (actionsInRow S k fns).flatMap Prod.snd = fns.flatMap method := by
  rw [List.flatMap_congr h, ← List.flatMap_map, FunctionDef.fst_actionsInRow]

/-- Each function has one method, and one renaming takes all methods to those in the other
    order. -/
theorem Reordered.exists_methods {program program' : Program} {options : Options} {k : Nat}
    (h : Reordered program program')
    (hlowers : ∀ fn ∈ program.functions, fn.Lowers (.ofProgram program options))
    (hsize : k + (program.functions.map FunctionDef.labelCount).sum ≤ UInt32.size) :
    ∃ (method : FunctionDef → List Action) (ρ : Label → Label), Function.Injective ρ ∧
      (∀ fn ∈ program.functions, IsMethod fn.header (method fn)) ∧
      (actionsInRow (.ofProgram program options) k program.functions).flatMap Prod.snd =
        program.functions.flatMap method ∧
      (actionsInRow (.ofProgram program options) k program'.functions).flatMap Prod.snd =
        program'.functions.flatMap fun fn => (method fn).map (Action.relabel ρ) := by
  obtain ⟨ρ, hρ⟩ := exists_renames h.functions_perm hlowers hsize
  have hnodup : ((actionsInRow (.ofProgram program options) k program.functions).map
      Prod.fst).Nodup := by
    rw [FunctionDef.fst_actionsInRow]
    exact .of_map FunctionDef.name h.distinct
  obtain ⟨method, hmethod⟩ := exists_method hnodup
  refine ⟨method, ρ, hρ.injective, ?_, flatMap_actionsInRow hmethod, flatMap_actionsInRow ?_⟩
  · intro fn hfn
    rw [← FunctionDef.fst_actionsInRow (.ofProgram program options) k program.functions] at hfn
    obtain ⟨m, hm, rfl⟩ := List.mem_map.mp hfn
    obtain ⟨hfn, k', hfrom⟩ := FunctionDef.mem_actionsInRow hm
    rw [← hmethod m hm, hfrom]
    exact (hlowers m.1 hfn).isMethod hfn h.distinct k'
  · intro m hm
    obtain ⟨m₀, hm₀, rfl⟩ := List.mem_map.mp (hρ.methods.mem_iff.mp hm)
    exact congrArg (List.map (Action.relabel ρ)) (hmethod m₀ hm₀)

-- ============================================================================
-- Programs with and without their functions
-- ============================================================================

theorem Gen.bind_assoc {α β γ : Type} (m : Gen α) (k : α → Gen β) (l : β → Gen γ) :
    m >>= k >>= l = m >>= fun a => k a >>= l := by
  funext S f
  exact Dialogue.bind_assoc (m S f) (fun a => k a S) fun b => l b S

theorem FunctionDef.emits_lowerAll_closeUnit {fns : List FunctionDef} {S : Setting} {f f' : Frame}
    {acts : List Action} :
    Emits (lowerAll fns >>= fun _ => closeUnit) S f () acts f' ↔
      ∃ functionActs, Emits (lowerAll fns) S f () functionActs f' ∧
        acts = functionActs ++ [.closeUnit] := by
  simp only [emits_bind, closeUnit, emits_request]
  constructor
  · rintro ⟨_, functionActs, _, _, hall, rfl, rfl, rfl⟩
    exact ⟨functionActs, hall, rfl⟩
  · rintro ⟨functionActs, hall, rfl⟩
    exact ⟨(), functionActs, _, _, hall, rfl, rfl, rfl⟩

/-- What the class of a program starts with: its header and the static entry. -/
def entryHeader : List Action :=
  [.code (.classHeader entryClass),
    .code (.methodHeader "public static main([Ljava/lang/String;)V"), .code .entryBody]

namespace Program

variable {program program' : Program} {S : Setting} {f g : Frame} {acts head : List Action}

def withoutFunctions (program : Program) : Program :=
  ⟨program.structs, program.body, []⟩

theorem labelCount_functions (program : Program) :
    program.labelCount =
      program.withoutFunctions.labelCount + (program.functions.map FunctionDef.labelCount).sum := by
  have hfunctions : (program.functions.map Origin.function).map Origin.labelCount =
      program.functions.map FunctionDef.labelCount := by
    rw [List.map_map]
    rfl
  simp only [labelCount, origins, withoutFunctions, List.map_append, List.map_cons, List.sum_append,
    List.sum_cons, hfunctions, List.map_nil, List.sum_nil]
  omega

/-- The functions are lowered last, before the unit of the entry class is closed. -/
theorem lower_shell (structs : List StructDef) (body : List Stmt) : ∃ shell : Gen Unit,
    ∀ functions, lower ⟨structs, body, functions⟩ = shell >>= fun _ =>
      FunctionDef.lowerAll functions >>= fun _ => closeUnit := by
  refine ⟨?shell, fun functions => Eq.trans ?_ (Eq.refl _)⟩
  rotate_left
  -- with all sequences bracketed to the left, the shell is what stands before the functions
  · simp only [lower, lowerEntry, ← Gen.bind_assoc]
    rfl

theorem lower_functions : Emits program.lower S f () acts g ↔ ∃ head f₁ functionActs,
    Emits program.withoutFunctions.lower S f () (head ++ [.closeUnit]) f₁ ∧
      Emits (FunctionDef.lowerAll program.functions) S f₁ () functionActs g ∧
      acts = head ++ (functionActs ++ [.closeUnit]) := by
  obtain ⟨shell, hshell⟩ := lower_shell program.structs program.body
  have hall : program.lower = _ := hshell program.functions
  have hnone : program.withoutFunctions.lower = _ := hshell []
  rw [hall, hnone]
  simp only [emits_bind (m := shell), FunctionDef.emits_lowerAll_closeUnit]
  constructor
  · rintro ⟨_, head, f₁, _, hhead, rfl, functionActs, hfunctions, rfl⟩
    have hempty : Emits (FunctionDef.lowerAll []) S f₁ () [] f₁ := emits_pure.mpr ⟨rfl, rfl, rfl⟩
    exact ⟨head, f₁, functionActs, ⟨(), head, f₁, _, hhead, rfl, [], hempty, rfl⟩, hfunctions, rfl⟩
  · rintro ⟨head, f₁, functionActs, ⟨_, first, f₂, _, hhead, heq, _, hempty, rfl⟩, hfunctions, rfl⟩
    obtain ⟨-, rfl, rfl⟩ := emits_pure.mp hempty
    obtain rfl := List.append_cancel_right heq
    exact ⟨(), _, _, _, hhead, rfl, functionActs, hfunctions, rfl⟩

/-- What comes before the functions: the classes of the structs, and the entry class up to
    the end of its constructor. -/
theorem head_of_withoutFunctions
    (h : Emits program.withoutFunctions.lower S .initial () (head ++ [.closeUnit]) g) :
    ∃ before reports constructor,
      head = before ++ .openUnit entryClass :: (reports ++ (entryHeader ++ constructor)) ∧
      Bracketed before ∧ Reports reports ∧ IsMethod "public <init>()V" constructor := by
  rw [lower, emits_bind] at h
  obtain ⟨_, structActs, f₁, entryActs, hstructs, hacts, hentry⟩ := h
  obtain ⟨-, -, -, -, hbracketed⟩ := lowerStructs_methods _ rfl hstructs
  obtain ⟨before, reports, bodyActs, functionActs, id, p, f₂, rfl, hbefore, hreports, -, -, -, hw,
    hempty⟩ := lowerEntry_split hentry
  obtain ⟨-, rfl, -⟩ := emits_pure.mp hempty
  have hsuper := Writes.ofCode (Fragment.codeAll superParts)
  refine ⟨structActs ++ before, reports, .code (.methodHeader "public <init>()V") ::
    ((Fragment.codeAll superParts).map Action.code ++
      (bodyActs ++ [.instr .ret, .code .endMethod])),
    ?_, hbracketed.append hbefore.bracketed, hreports, ?_, ?_⟩
  · refine List.append_cancel_right (hacts.trans ?_)
    simp [entryHeader]
  · simp [hsuper.inUnit, hw.inUnit]
  · refine ⟨_, Fragment.inner_codeAll (superParts ++ p ++ [.instr .ret]), ?_⟩
    simp [hsuper.codesOf, hw.codesOf]

theorem frame_of_withoutFunctions (h : Emits program.withoutFunctions.lower S .initial () acts g) :
    g.entered = [] ∧
      g.nextLabel = (⟨0⟩ : Label).advance program.withoutFunctions.labelCount := by
  obtain ⟨ms, hms, -⟩ := lower_methods h
  obtain ⟨_, _, _, _, _, _, _, _, ⟨e⟩⟩ := lower_entry h
  exact ⟨e.entered, hms.labelled.1⟩

end Program

/-- With the functions in another order a program can be lowered as well. Nothing changes but
    the order of the functions' methods and their labels. -/
theorem Reordered.lower_functions {program program' : Program} {options : Options}
    {acts : List Action} {g : Frame} (h : Reordered program program')
    (hlower : Emits program.lower (.ofProgram program options) .initial () acts g) :
    (∀ fn ∈ program.functions, fn.Lowers (.ofProgram program options)) ∧
      ∃ head, (∃ f₁, Emits program.withoutFunctions.lower (.ofProgram program options) .initial ()
          (head ++ [.closeUnit]) f₁) ∧
        acts = head ++ ((actionsInRow (.ofProgram program options)
          program.withoutFunctions.labelCount program.functions).flatMap Prod.snd ++
            [.closeUnit]) ∧
        ∃ g', Emits program'.lower (.ofProgram program' options) .initial () (head ++
          ((actionsInRow (.ofProgram program options) program.withoutFunctions.labelCount
            program'.functions).flatMap Prod.snd ++ [.closeUnit])) g' := by
  obtain ⟨head, f₁, functionActs, hhead, hfunctions, rfl⟩ := Program.lower_functions.mp hlower
  obtain ⟨hentered, hlabel⟩ := Program.frame_of_withoutFunctions hhead
  have hlowers := FunctionDef.lowers_of_lowerAll h.left program.functions hentered hlabel hfunctions
  obtain ⟨g₁, hrow⟩ :=
    FunctionDef.lowerAll_relocated h.left program.functions hlowers hentered hlabel
  obtain rfl : functionActs = _ := hfunctions.2.1.symm.trans hrow.2.1
  refine ⟨hlowers, head, ⟨f₁, hhead⟩, rfl, ?_⟩
  -- the same head comes out with the other table
  obtain ⟨f₁', hhead', -, hentered', hlater⟩ := h.relocated
    ((relocation h options 0).program_lower program.withoutFunctions) rfl rfl
    (Label.advance_zero _).symm hhead
  have hsame : (fun l : Label => l.advance 0) = id := funext Label.advance_zero
  rw [hsame, List.map_congr_left (fun action _ => action.relabel_id), List.map_id'] at hhead'
  have hlabel' : f₁'.nextLabel = (⟨0⟩ : Label).advance program.withoutFunctions.labelCount := by
    rw [show f₁'.nextLabel = _ from hlater, Label.advance_zero, hlabel]
  have hprogram : program.withoutFunctions = program'.withoutFunctions := by
    rw [Program.withoutFunctions, Program.withoutFunctions, h.structs_eq, h.body_eq]
  obtain ⟨g', hrow'⟩ := FunctionDef.lowerAll_relocated h program'.functions
    (fun fn hfn => hlowers fn (h.functions_perm.mem_iff.mpr hfn)) hentered' hlabel'
  exact ⟨g', Program.lower_functions.mpr ⟨head, f₁', _, hprogram ▸ hhead', hrow', rfl⟩⟩

-- ============================================================================
-- Runs
-- ============================================================================

namespace Output

theorem actAll_eq {rs : List Request} {s after : Session Memory String}
    (h : Session.performAll rs s = (.ok (), after)) :
    actAll (rs.map Request.action) s.output = (.ok (), after.output) := by
  obtain ⟨hresult, houtput⟩ := Session.performAll_output rs s
  rw [h] at hresult houtput
  exact Prod.ext hresult.symm houtput.symm

/-- A request for each action, whatever the frame. -/
def requestsFor (acts : List Action) : List Request :=
  acts.map fun action => ⟨action, .initial⟩

@[simp] theorem action_requestsFor (acts : List Action) :
    (requestsFor acts).map Request.action = acts := by
  rw [requestsFor, List.map_map]
  exact List.map_id' acts

theorem actAll_bracketed {acts : List Action} (h : Bracketed acts) (memory : Memory) :
    ∃ memory', actAll acts ⟨none, memory⟩ = (.ok (), ⟨none, memory'⟩) := by
  obtain ⟨f', memory', reports', hall⟩ := Session.performAll_bracketed h (requestsFor acts)
    (action_requestsFor acts) .initial memory [] []
  rw [List.append_nil] at hall
  have hacts := actAll_eq hall
  rw [action_requestsFor] at hacts
  exact ⟨memory', hacts⟩

theorem actAll_wholeUnit {inside : List Action} (h : InUnit inside) (memory : Memory)
    (name : String) :
    actAll (.openUnit name :: (inside ++ [.closeUnit])) ⟨none, memory⟩ =
      (.ok (), ⟨none, memory.set name (writtenBy inside)⟩) := by
  have hinside : InUnit ((requestsFor inside).map Request.action) := by
    rwa [action_requestsFor]
  have hopening : (⟨.openUnit name, .initial⟩ : Request).action = .openUnit name := rfl
  have hclosing : (⟨.closeUnit, .initial⟩ : Request).action = .closeUnit := rfl
  obtain ⟨f', reports', hall⟩ :=
    Session.performAll_unit memory hopening hclosing hinside .initial [] []
  have hacts := actAll_eq hall
  simp only [List.map_cons, List.map_append, List.map_nil, action_requestsFor] at hacts
  exact hacts

end Output

theorem Reports.writtenBy {acts : List Action} (h : Reports acts) : writtenBy acts = "" := by
  induction acts with
  | nil => rfl
  | cons action rest ih =>
      obtain ⟨⟨line, rfl⟩, hrest⟩ := List.forall_mem_cons.mp h
      have hwritten : JasminGen.writtenBy (.report line :: rest) = "" ++ JasminGen.writtenBy rest :=
        JasminGen.writtenBy_append [.report line] rest
      rw [hwritten, ih hrest]
      rfl

theorem inUnit_flatMap {α : Type} {xs : List α} {g : α → List Action}
    (h : ∀ x ∈ xs, InUnit (g x)) : InUnit (xs.flatMap g) := by
  intro action haction
  obtain ⟨x, hx, hg⟩ := List.mem_flatMap.mp haction
  exact h x hx action hg

/-- The units of a run that lowers a whole program: those of the structs, and the unit of
    the entry class with its methods. -/
theorem generate_sink {program : Program} {S : Setting} {memory memory₁ : Memory}
    {before reports constructor methods : List Action}
    (hbefore : Output.actAll before ⟨none, memory⟩ = (.ok (), ⟨none, memory₁⟩))
    (hreports : Reports reports) (hconstructor : InUnit constructor) (hmethods : InUnit methods)
    (hacts : program.actions S = (before ++ .openUnit entryClass ::
      (reports ++ (entryHeader ++ constructor))) ++ (methods ++ [.closeUnit])) :
    (generate S program memory).2.output.sink =
      memory₁.set entryClass (writtenBy (entryHeader ++ (constructor ++ methods))) := by
  have hinside : InUnit (reports ++ (entryHeader ++ (constructor ++ methods))) := by
    simp [hreports.inUnit, entryHeader, hconstructor, hmethods]
  have hwritten : writtenBy (reports ++ (entryHeader ++ (constructor ++ methods))) =
      writtenBy (entryHeader ++ (constructor ++ methods)) := by
    rw [writtenBy_append, hreports.writtenBy, String.empty_append]
  have hsplit : program.actions S = before ++ .openUnit entryClass ::
      ((reports ++ (entryHeader ++ (constructor ++ methods))) ++ [.closeUnit]) := by
    simpa using hacts
  have hall := Output.actAll_wholeUnit hinside memory₁ entryClass
  rw [← Output.actAll_append_ok hbefore, ← hsplit, hwritten] at hall
  exact congrArg Output.sink
    (Session.run_output_ok (s := Session.start memory) program.propagates_lower hall).1

theorem Reordered.generate_ok {program program' : Program} (h : Reordered program program')
    {options : Options} {memory : Memory}
    (hrun : (generate (.ofProgram program options) program memory).1 = .ok ()) :
    (generate (.ofProgram program' options) program' memory).1 = .ok () := by
  obtain ⟨-, _, -, -, _, hlower⟩ := h.lower_functions (generate_emits hrun)
  exact generate_memory_ok memory hlower.1

/-- The order of functions does not matter. A run succeeds for one order if and only if it
    does for the other. Then all units but that of the entry class are the same, and that unit
    has the same header, static entry and constructor, followed by the methods of the functions in
    their order. Each method is the same in both units up to the labels, and one injective
    renaming takes the labels of all methods to those in the other unit. -/
theorem generate_reordered {program program' : Program} (h : Reordered program program')
    (hlabels : program.labelCount < UInt32.size) (options : Options) (memory : Memory) :
    let run := generate (.ofProgram program options) program memory
    let run' := generate (.ofProgram program' options) program' memory
    (run.1 = .ok () ↔ run'.1 = .ok ()) ∧ (run.1 = .ok () →
      (∀ name, name ≠ entryClass →
        run'.2.output.sink.unit? name = run.2.output.sink.unit? name) ∧
      ∃ (constructor : List Action) (method : FunctionDef → List Action) (ρ : Label → Label),
        Function.Injective ρ ∧ IsMethod "public <init>()V" constructor ∧
        (∀ fn ∈ program.functions, IsMethod fn.header (method fn)) ∧
        run.2.output.sink.unit? entryClass = some (writtenBy (entryHeader ++ (constructor ++
          program.functions.flatMap method))) ∧
        run'.2.output.sink.unit? entryClass = some (writtenBy (entryHeader ++ (constructor ++
          program'.functions.flatMap fun fn => (method fn).map (Action.relabel ρ))))) := by
  intro run run'
  refine ⟨⟨h.generate_ok, h.symm.generate_ok⟩, fun hrun => ?_⟩
  obtain ⟨hlowers, head, ⟨f₁, hhead⟩, hacts, g', hlower⟩ := h.lower_functions (generate_emits hrun)
  obtain ⟨before, reports, constructor, rfl, hbefore, hreports, hconstructor⟩ :=
    Program.head_of_withoutFunctions hhead
  have hsize := program.labelCount_functions ▸ Nat.le_of_lt hlabels
  obtain ⟨method, ρ, hρ, hmethods, hrow, hrow'⟩ := h.exists_methods hlowers hsize
  have hmethods' : ∀ fn ∈ program'.functions,
      IsMethod fn.header ((method fn).map (Action.relabel ρ)) :=
    fun fn hfn => (hmethods fn (h.functions_perm.mem_iff.mpr hfn)).relabel ρ
  have hacts' := hlower.2.1
  rw [hrow] at hacts
  rw [hrow'] at hacts'
  -- both runs write the units of the structs first, and then the unit of the entry class
  obtain ⟨memory₁, hmemory⟩ := Output.actAll_bracketed hbefore memory
  have hsink : run.2.output.sink = _ := generate_sink hmemory hreports hconstructor.inUnit
    (inUnit_flatMap fun fn hfn => (hmethods fn hfn).inUnit) hacts
  have hsink' : run'.2.output.sink = _ := generate_sink hmemory hreports hconstructor.inUnit
    (inUnit_flatMap fun fn hfn => (hmethods' fn hfn).inUnit) hacts'
  refine ⟨fun name hname => ?_, constructor, method, ρ, hρ, hconstructor, hmethods, ?_, ?_⟩
  · rw [hsink, hsink', Memory.unit?_set_of_ne _ hname, Memory.unit?_set_of_ne _ hname]
  · rw [hsink, Memory.unit?_set]
  · rw [hsink', Memory.unit?_set]

/-- Two functions that take labels. -/
def countersProgram : Program where
  body := [.display (.binary .equal (.int 1) (.int 2))]
  functions := [⟨"wait", [⟨"k", .int⟩], .void, [.loop (.ident "k") (.block [])]⟩,
    ⟨"less", [⟨"m", .int⟩, ⟨"n", .int⟩], .bool,
      [.cond (.binary (.order .lt) (.ident "m") (.ident "n")) (.ret (some (.bool true))) none,
        .ret (some (.bool false))]⟩]

def countersReversed : Program :=
  ⟨[], countersProgram.body, countersProgram.functions.reverse⟩

theorem countersProgram_reordered : Reordered countersProgram countersReversed where
  structs_eq := rfl
  body_eq := rfl
  functions_perm := (List.reverse_perm _).symm
  distinct := by decide
  scopes_le := by decide

theorem countersProgram_lowers :
    (countersProgram.lower (.ofProgram countersProgram {}) .initial).result = .ok () := by
  decide +kernel

theorem generate_countersReversed :
    let run := generate (.ofProgram countersProgram {}) countersProgram Memory.empty
    let run' := generate (.ofProgram countersReversed {}) countersReversed Memory.empty
    countersProgram.labelCount = 8 ∧ run.1 = .ok () ∧
      ∃ (constructor : List Action) (method : FunctionDef → List Action) (ρ : Label → Label),
        Function.Injective ρ ∧ IsMethod "public <init>()V" constructor ∧
        (∀ fn ∈ countersProgram.functions, IsMethod fn.header (method fn)) ∧
        run.2.output.sink.unit? entryClass = some (writtenBy (entryHeader ++ (constructor ++
          countersProgram.functions.flatMap method))) ∧
        run'.2.output.sink.unit? entryClass = some (writtenBy (entryHeader ++ (constructor ++
          countersReversed.functions.flatMap fun fn => (method fn).map (Action.relabel ρ)))) := by
  have hlabels : countersProgram.labelCount < UInt32.size := by decide
  have hrun := generate_memory_ok Memory.empty countersProgram_lowers
  have hsame := (generate_reordered countersProgram_reordered hlabels {} Memory.empty).2 hrun
  exact ⟨rfl, hrun, hsame.2⟩

end JasminGen
