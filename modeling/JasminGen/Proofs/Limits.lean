/-
  JasminGen.Proofs.Limits

  The capacities that methods declare. The header of a method is written before its body is
  lowered, with the same two limits for every method. The slots and the depth of the operand
  stack that a method comes to need can be read off its source, and a method stays within its
  limits as long as these needs do. Both can be exceeded: slots grow with variables and
  loops, and depth grows with the nesting of expressions.

  Main definitions: `MethodCode.DeclaresLimits`, `KeepsLimits`. Main result: `limits_of_run`.
-/

import JasminGen.Proofs.Lines
import JasminGen.Proofs.SlotBound
import JasminGen.Proofs.StackBound

namespace JasminGen

-- ============================================================================
-- Limits in headers
-- ============================================================================

/-- The header of the method ends with these capacities of the operand stack and of the
    local slots. -/
def MethodCode.DeclaresLimits (m : MethodCode) (stack locals : Nat) : Prop :=
  [(".limit stack " ++ toString stack).toList, (".limit locals " ++ toString locals).toList] <:+
    (Code.methodHeader m.signature).emission.lines

theorem MethodCode.declaresLimits (m : MethodCode) : m.DeclaresLimits stackLimit localsLimit := by
  have hlimits : ("\n.limit stack " ++ toString stackLimit ++ "\n.limit locals " ++
      toString localsLimit ++ "\n").toList = '\n' :: ".limit stack 128\n.limit locals 128\n".toList := by
    decide
  have htext : ("\n.method " ++ m.signature ++ "\n.limit stack " ++ toString stackLimit ++
      "\n.limit locals " ++ toString localsLimit ++ "\n").toList =
      ("\n.method " ++ m.signature).toList ++ '\n' :: ".limit stack 128\n.limit locals 128\n".toList := by
    rw [← hlimits, ← String.toList_append]
    simp only [String.append_assoc]
  have hlines : (Text.lines ".limit stack 128\n.limit locals 128\n".toList).map Text.trim =
      [(".limit stack " ++ toString stackLimit).toList,
        (".limit locals " ++ toString localsLimit).toList] := by
    decide
  have hheader : (Code.methodHeader m.signature).emission.lines = (Text.lines _).map Text.trim :=
    List.flatMap_singleton ..
  rw [DeclaresLimits, hheader, htext, Text.lines_append, List.map_append, hlines]
  exact List.suffix_append _ _

-- ============================================================================
-- Methods within their limits
-- ============================================================================

/-- The method made from `o` stays within the limits that it declares. -/
structure KeepsLimits (S : Setting) (o : Origin) (m : MethodCode) : Prop where
  declared : m.DeclaresLimits stackLimit localsLimit
  slots : o.slotCount S < localsLimit → ∀ i slot, .instr i ∈ m.body → i.slot? = some slot →
    slot < localsLimit
  stack : o.stackNeed S ≤ stackLimit → o.labelCount ≤ UInt32.size →
    ∀ place depth, Visits depthTransfer m.body 0 place depth → depth ≤ stackLimit

theorem MethodLowered.keepsLimits {S : Setting} {o : Origin} {n n' : Label} {m : LoweredMethod}
    (h : MethodLowered S o n m n') : KeepsLimits S o m.code where
  declared := m.code.declaresLimits
  slots hfits _ _ hi hslot := Nat.lt_of_le_of_lt (h.slot_le hi hslot) hfits
  stack hfits hcount _ _ hv := Nat.le_trans (h.depth_le hcount hv) hfits

theorem MethodsLowered.keepsLimits {S : Setting} {os : List Origin} {n n' : Label}
    {ms : List LoweredMethod} (h : MethodsLowered S os n ms n') :
    List.Forall₂ (KeepsLimits S) os (ms.map LoweredMethod.code) := by
  induction h with
  | nil => exact .nil
  | cons hm _ _ ih => exact .cons hm.keepsLimits ih

/-- Execution comes to the end of plain instructions in a row. -/
theorem Visits.straight {σ : Type} {T : Transfer σ} {s₀ s s' : σ} {front rest : List Code}
    {is : List Instr} (hv : Visits T (front ++ (is.map Code.instr ++ rest)) s₀ front.length s)
    (h : runPlain T is s = some s') :
    Visits T (front ++ (is.map Code.instr ++ rest)) s₀ (front.length + is.length) s' := by
  induction is generalizing front s with
  | nil =>
      obtain rfl : s = s' := Option.some.inj h
      exact hv
  | cons i is ih =>
      rw [runPlain] at h
      split at h
      · next hplain =>
          obtain ⟨s₁, ht, hrun⟩ := Option.bind_eq_some_iff.mp h
          have hat : (front ++ ((i :: is).map Code.instr ++ rest))[front.length]? =
              some (.instr i) := by simp
          have hnext := hv.instr hat ht (.inl ⟨Instr.fallsThrough_of_isPlain hplain, rfl⟩)
          have hmoved : front ++ ((i :: is).map Code.instr ++ rest) =
              (front ++ [.instr i]) ++ (is.map Code.instr ++ rest) := by simp
          have hlength : (front ++ [Code.instr i]).length = front.length + 1 := by simp
          rw [hmoved, ← hlength] at hnext
          have hend := ih hnext hrun
          rwa [← hmoved, hlength, Nat.add_assoc, Nat.add_comm 1] at hend
      · cases h

/-- Every method of a program declares the same limits, and stays within them if it takes no
    more slots and no deeper stack than they allow. -/
theorem limits_of_run {σ ω : Type} [Sink σ ω] (program : Program) (options : Options) (sink : σ)
    (hrun : (generate (Setting.ofProgram program options) program sink).1 = .ok ()) :
    List.Forall₂ (KeepsLimits (Setting.ofProgram program options)) program.origins
      (methods (program.codes (Setting.ofProgram program options))) := by
  obtain ⟨ms, hms, hcodes, -⟩ := Program.lower_methods (generate_emits hrun)
  have hmethods : methods (program.codes _) = ms.map LoweredMethod.code := hcodes.methods_eq
  rw [hmethods]
  exact hms.keepsLimits

theorem limits_of_callingProgram :
    (∀ o ∈ callingProgram.origins, o.slotCount (.ofProgram callingProgram {}) < localsLimit ∧
        o.stackNeed (.ofProgram callingProgram {}) ≤ stackLimit) ∧
      List.Forall₂ (KeepsLimits (.ofProgram callingProgram {})) callingProgram.origins
        (methods (callingProgram.codes (.ofProgram callingProgram {}))) :=
  ⟨by decide +kernel, limits_of_run callingProgram {} Memory.empty (generate_memory_ok _ (by decide +kernel))⟩

/-- A sum of ones, each added to the sum of those after it. -/
def nestedSum : Nat → Expr
  | 0 => .int 1
  | n + 1 => .binary (.arith .add) (.int 1) (nestedSum n)

/-- A sum of 128 ones, and 128 loops. -/
def crowdedProgram : Program where
  body := .display (nestedSum 127) :: List.replicate 128 (.loop (.int 0) (.block []))

/-- The code of its constructor, up to the innermost one. -/
def climbing : List Instr :=
  [.aload receiverSlot, .invoke .objectInit, .getSystemOut] ++ ((List.replicate 127
    [.ldcInt 1, .invoke .integerValueOf, .invoke .integerIntValue]).flatten ++ [.ldcInt 1])

theorem crowdedProgram_lowers :
    (crowdedProgram.lower (.ofProgram crowdedProgram {}) .initial).result = .ok () := by
  decide +kernel

theorem crowdedProgram_constructor :
    ∃ m ∈ methods (crowdedProgram.codes (.ofProgram crowdedProgram {})),
      climbing.map Code.instr <+: m.body ∧ .instr (.istore 128) ∈ m.body := by
  decide +kernel

/-- A program is accepted although one of its methods exceeds both of its limits. -/
theorem crowdedProgram_exceeds :
    (generate (.ofProgram crowdedProgram {}) crowdedProgram Memory.empty).1 = .ok () ∧
      ∃ m ∈ methods (crowdedProgram.codes (.ofProgram crowdedProgram {})),
        m.DeclaresLimits stackLimit localsLimit ∧
        (∃ i slot, .instr i ∈ m.body ∧ i.slot? = some slot ∧ localsLimit ≤ slot) ∧
        ∃ place depth, Visits depthTransfer m.body 0 place depth ∧ stackLimit < depth := by
  obtain ⟨m, hm, ⟨rest, hbody⟩, hslot⟩ := crowdedProgram_constructor
  have hdepth : runPlain depthTransfer climbing 0 = some 129 := by decide +kernel
  have hstart : Visits depthTransfer ([] ++ (climbing.map Code.instr ++ rest)) 0 0 0 := .start
  have hvisits := hstart.straight hdepth
  rw [List.nil_append, hbody] at hvisits
  exact ⟨generate_memory_ok _ crowdedProgram_lowers, m, hm, m.declaresLimits,
    ⟨.istore 128, 128, hslot, rfl, Nat.le_refl 128⟩, _, 129, hvisits, by decide⟩

end JasminGen
