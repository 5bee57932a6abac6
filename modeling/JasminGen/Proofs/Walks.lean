/-
  JasminGen.Proofs.Walks

  Ways through the control flow of code. A walk goes from an instruction to any of its
  successors, whatever the operands are, and over labels. The code of a construct
  declares the labels it jumps to, so a walk that is inside of it leaves it at its end
  only.

  Main definitions: `Walk`, `Sealed`, `Confined`. Main results: `Labelled.sealed`,
  `Walk.through`, `Walk.lt_length`.
-/

import JasminGen.Proofs.Flow
import JasminGen.Proofs.Machine

namespace JasminGen

-- ============================================================================
-- Walks
-- ============================================================================

/-- `Walk code i trace k`: control may go from the place `i` to the place `k` through the
    instructions of `trace`. Both outcomes of a branch are possible. -/
inductive Walk (code : List Code) : Nat → List Instr → Nat → Prop where
  | stay {i : Nat} : Walk code i [] i
  | instr {i j k : Nat} {x : Instr} {trace : List Instr} :
      code[i]? = some (.instr x) → Successor code i x j → Walk code j trace k →
      Walk code i (x :: trace) k
  | label {i k : Nat} {l : Label} {trace : List Instr} :
      code[i]? = some (.label l) → Walk code (i + 1) trace k → Walk code i trace k

section Successors

variable {code : List Code} {i j : Nat} {x : Instr} {jump : Jump}

theorem Successor.eq_next (h : Successor code i x j) (hx : x.jump? = none) : j = i + 1 := by
  rcases h with ⟨-, hj⟩ | ⟨jump, hjump, -⟩
  · exact hj
  · rw [hx] at hjump
    cases hjump

/-- A jump leads to the next place, or to the one where its label is declared. -/
theorem Successor.eq_next_or {place : Nat} (h : Successor code i x j)
    (hnodup : (declared code).Nodup) (hx : x.jump? = some jump)
    (hl : code[place]? = some (.label jump.target)) : j = i + 1 ∨ j = place := by
  rcases h with ⟨-, hj⟩ | ⟨jump', hjump', hj⟩
  · exact .inl hj
  · rw [hx] at hjump'
    cases hjump'
    have hplace := labelPlace_eq hnodup hj
    rw [labelPlace_eq hnodup hl] at hplace
    exact .inr (Option.some.inj hplace).symm

theorem Successor.lt_length (h : Successor code i x j) (hi : i + 1 < code.length ∨
    x.fallsThrough = false) : j < code.length := by
  rcases h with ⟨hfalls, rfl⟩ | ⟨jump, -, hj⟩
  · rcases hi with hi | hi
    · exact hi
    · rw [hfalls] at hi
      cases hi
  · exact (List.getElem?_eq_some_iff.mp hj).1

end Successors

/-- A walk at an instruction that does not jump stays there, or goes to the next place. -/
theorem Walk.plain {code : List Code} {i k : Nat} {x : Instr} {trace : List Instr}
    (h : Walk code i trace k) (hx : code[i]? = some (.instr x)) (hjump : x.jump? = none) :
    (trace = [] ∧ k = i) ∨ ∃ rest, trace = x :: rest ∧ Walk code (i + 1) rest k := by
  cases h with
  | stay => exact .inl ⟨rfl, rfl⟩
  | instr hy hj hrest =>
      rw [hx] at hy
      cases hy
      rw [hj.eq_next hjump] at hrest
      exact .inr ⟨_, rfl, hrest⟩
  | label hl =>
      rw [hx] at hl
      cases hl

/-- A walk stops at an instruction without successors. -/
theorem Walk.leave {code : List Code} {i k : Nat} {x : Instr} {trace : List Instr}
    (h : Walk code i trace k) (hx : code[i]? = some (.instr x)) (hfalls : x.fallsThrough = false)
    (hjump : x.jump? = none) : trace = [] ∧ k = i := by
  cases h with
  | stay => exact ⟨rfl, rfl⟩
  | instr hy hj =>
      rw [hx] at hy
      cases hy
      rcases hj with ⟨hfalls', -⟩ | ⟨jump, hjump', -⟩
      · rw [hfalls] at hfalls'
        cases hfalls'
      · rw [hjump] at hjump'
        cases hjump'
  | label hl =>
      rw [hx] at hl
      cases hl

/-- No walk runs past code that ends with an instruction without a place after it. -/
theorem Walk.lt_length {code : List Code} {i k : Nat} {x : Instr} {trace : List Instr}
    (h : Walk code i trace k) (hlast : code.getLast? = some (.instr x))
    (hx : x.fallsThrough = false) (hi : i < code.length) : k < code.length := by
  -- the last place is the only one that could lead out, and `x` stands there
  have hend : ∀ i c, i < code.length → code[i]? = some c →
      i + 1 < code.length ∨ c = .instr x := by
    intro i c hi hc
    by_cases hnext : i + 1 < code.length
    · exact .inl hnext
    · rw [List.getLast?_eq_getElem?, show code.length - 1 = i by omega, hc] at hlast
      exact .inr (Option.some.inj hlast)
  induction h with
  | stay => exact hi
  | @instr i j k y trace hy hj _ ih =>
      apply ih
      apply hj.lt_length
      refine (hend i _ hi hy).imp_right fun heq => ?_
      rw [Code.instr.inj heq]
      exact hx
  | label hl _ ih =>
      apply ih
      rcases hend _ _ hi hl with hnext | heq
      · exact hnext
      · cases heq

-- ============================================================================
-- Walks through constructs
-- ============================================================================

/-- From the places between `a` and `b`, control goes to places between them, or to `b`. -/
def Sealed (code : List Code) (a b : Nat) : Prop :=
  ∀ i x j, a ≤ i → i < b → code[i]? = some (.instr x) → Successor code i x j → a ≤ j ∧ j ≤ b

/-- Code that declares the labels it jumps to is left at its end only. -/
theorem Labelled.sealed {code segment : List Code} {place count loops : Nat} {l : Label}
    (h : Labelled l count loops segment) (hnodup : (JasminGen.declared code).Nodup)
    (hat : At code place segment) : Sealed code place (place + segment.length) := by
  intro i x j hi hlt hx hj
  obtain ⟨d, rfl⟩ := Nat.exists_eq_add_of_le hi
  have hd : d < segment.length := by omega
  have hseg : segment[d]? = some (.instr x) := by
    rw [← hx, hat d _ (List.getElem?_eq_getElem hd), List.getElem?_eq_getElem hd]
  cases hjump : x.jump? with
  | none =>
      obtain rfl := hj.eq_next hjump
      omega
  | some jump =>
      obtain ⟨k, hk⟩ := h.declares_target hseg hjump
      have hklt : k < segment.length := (List.getElem?_eq_some_iff.mp hk).1
      rcases hj.eq_next_or hnodup hjump (hat k _ hk) with rfl | rfl <;> omega

/-- A walk into sealed code ends there, or goes through it and on from its end. -/
theorem Walk.through {code : List Code} {a b i k : Nat} {trace : List Instr}
    (h : Walk code i trace k) (hsealed : Sealed code a b) (ha : a ≤ i) (hb : i ≤ b) :
    ∃ inside rest, trace = inside ++ rest ∧
      (∀ x ∈ inside, ∃ place, a ≤ place ∧ place < b ∧ code[place]? = some (.instr x)) ∧
      ((rest = [] ∧ a ≤ k ∧ k < b) ∨ Walk code b rest k) := by
  induction h with
  | @stay i =>
      refine ⟨[], [], rfl, by simp, ?_⟩
      by_cases hend : i = b
      · exact .inr (hend ▸ .stay)
      · exact .inl ⟨rfl, ha, by omega⟩
  | @instr i j k x trace hx hj hwalk ih =>
      by_cases hend : i = b
      · subst hend
        exact ⟨[], _, rfl, by simp, .inr (.instr hx hj hwalk)⟩
      · have hlt : i < b := by omega
        have hnext := hsealed i x j ha hlt hx hj
        obtain ⟨inside, rest, rfl, hinside, hrest⟩ := ih hnext.1 hnext.2
        refine ⟨x :: inside, rest, rfl, ?_, hrest⟩
        exact List.forall_mem_cons.mpr ⟨⟨i, ha, hlt, hx⟩, hinside⟩
  | @label i k l trace hl hwalk ih =>
      by_cases hend : i = b
      · subst hend
        exact ⟨[], _, rfl, by simp, .inr (.label hl hwalk)⟩
      · exact ih (by omega) (by omega)

theorem At.mem {code segment : List Code} {place i : Nat} {c : Code} (h : At code place segment)
    (ha : place ≤ i) (hb : i < place + segment.length) (hc : code[i]? = some c) : c ∈ segment := by
  obtain ⟨d, rfl⟩ := Nat.exists_eq_add_of_le ha
  have hd : segment[d]? = some (segment.get ⟨d, by omega⟩) := List.getElem?_eq_getElem _
  rw [h d _ hd] at hc
  rw [← Option.some.inj hc]
  exact List.get_mem _ _

/-- A walk into the code of a construct ends there, or goes through it and on from its
    end. -/
theorem Walk.through_segment {code segment : List Code} {place count loops k : Nat} {l : Label}
    {trace : List Instr} (h : Walk code place trace k) (hlabels : Labelled l count loops segment)
    (hnodup : (declared code).Nodup) (hat : At code place segment) :
    ∃ inside rest, trace = inside ++ rest ∧ (∀ x ∈ inside, .instr x ∈ segment) ∧
      ((rest = [] ∧ k < place + segment.length) ∨ Walk code (place + segment.length) rest k) := by
  obtain ⟨inside, rest, htrace, hinside, hrest⟩ :=
    h.through (hlabels.sealed hnodup hat) (Nat.le_refl _) (Nat.le_add_right _ _)
  refine ⟨inside, rest, htrace, fun x hx => ?_, hrest.imp_left fun ⟨hnil, _, hk⟩ => ⟨hnil, hk⟩⟩
  obtain ⟨i, ha, hb, hi⟩ := hinside x hx
  exact hat.mem ha hb hi

-- ============================================================================
-- Walks that stay
-- ============================================================================

/-- All walks from the place `i` stay between the places `a` and `b`. -/
def Confined (code : List Code) (i a b : Nat) : Prop :=
  ∀ trace k, Walk code i trace k → a ≤ k ∧ k < b

namespace Confined

variable {code : List Code} {i a b : Nat} {x : Instr}

theorem mono {a' b' : Nat} (h : Confined code i a b) (ha : a' ≤ a) (hb : b ≤ b') :
    Confined code i a' b' := by
  intro trace k hwalk
  have := h trace k hwalk
  omega

/-- Walks stay if they do from all successors. -/
theorem step (ha : a ≤ i) (hb : i < b) (hx : code[i]? = some (.instr x))
    (h : ∀ j, Successor code i x j → Confined code j a b) : Confined code i a b := by
  intro trace k hwalk
  cases hwalk with
  | stay => exact ⟨ha, hb⟩
  | instr hy hj hrest =>
      rw [hx] at hy
      cases hy
      exact h _ hj _ _ hrest
  | label hl =>
      rw [hx] at hl
      cases hl

theorem plain (ha : a ≤ i) (hb : i < b) (hx : code[i]? = some (.instr x))
    (hjump : x.jump? = none) (h : Confined code (i + 1) a b) : Confined code i a b := by
  apply step ha hb hx
  intro j hj
  rwa [hj.eq_next hjump]

theorem leave (ha : a ≤ i) (hb : i < b) (hx : code[i]? = some (.instr x))
    (hfalls : x.fallsThrough = false) (hjump : x.jump? = none) : Confined code i a b := by
  intro trace k hwalk
  obtain ⟨-, rfl⟩ := hwalk.leave hx hfalls hjump
  exact ⟨ha, hb⟩

theorem branch {jump : Jump} {place : Nat} (ha : a ≤ i) (hb : i < b)
    (hx : code[i]? = some (.instr x)) (hnodup : (declared code).Nodup)
    (hjump : x.jump? = some jump) (hl : code[place]? = some (.label jump.target))
    (hnext : Confined code (i + 1) a b) (hplace : Confined code place a b) :
    Confined code i a b := by
  apply step ha hb hx
  intro j hj
  rcases hj.eq_next_or hnodup hjump hl with rfl | rfl
  · exact hnext
  · exact hplace

theorem label {l : Label} (ha : a ≤ i) (hb : i < b) (hl : code[i]? = some (.label l))
    (h : Confined code (i + 1) a b) : Confined code i a b := by
  intro trace k hwalk
  cases hwalk with
  | stay => exact ⟨ha, hb⟩
  | instr hy =>
      rw [hl] at hy
      cases hy
  | label _ hrest => exact h _ _ hrest

/-- Walks stay if they do after sealed code. -/
theorem through {mid : Nat} (hsealed : Sealed code i mid) (ha : a ≤ i) (hmid : i ≤ mid)
    (hb : mid ≤ b) (h : Confined code mid a b) : Confined code i a b := by
  intro trace k hwalk
  obtain ⟨-, rest, -, -, hrest⟩ := hwalk.through hsealed (Nat.le_refl i) hmid
  rcases hrest with ⟨-, hk⟩ | hrest
  · omega
  · exact h rest k hrest

end Confined

end JasminGen
