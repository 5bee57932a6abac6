/-
  JasminGen.Proofs.SlotUse

  What the code of a method does with its slots. The instructions that use slots belong
  to five constructs: a name that is read, a declaration, an assignment, a loop, and a
  pointer to a function, which loads the receiver. All others use none. A name is always
  found in its own slot, and a loop counts in a slot that nothing else uses.

  Main definitions: `SlotRule`, `SlotsSound`. Main result: `slots_of_methods`.
-/

import JasminGen.Proofs.Lowering.Constructs
import JasminGen.Proofs.Slots
import JasminGen.Proofs.Symbols
import Mathlib.Data.List.Forall2

namespace JasminGen

-- ============================================================================
-- Uses of slots
-- ============================================================================

/-- The slot that an instruction reads or writes. -/
abbrev Instr.slot? : Instr → Option Nat
  | .aload slot | .astore slot | .iload slot | .istore slot | .decrement slot => some slot
  | .nop | .aconstNull | .iconst0 | .iconst1 | .ldcInt _ | .ldcText _ | .pop | .dup | .iadd | .isub
  | .imul | .idiv | .ineg | .ixor | .branch _ _ | .goto _ | .ret | .areturn | .getSystemOut
  | .putfield _ _ _ | .invoke _ | .new _ | .checkcast _ => none

/-- The instruction of a line of code, if it uses the slot. -/
def Code.slotUse? (slot : Nat) : Code → Option Instr
  | .instr i => if i.slot? = some slot then some i else none
  | _ => none

/-- The instructions of code that use a slot, in order. -/
def slotUses (slot : Nat) (code : List Code) : List Instr :=
  code.filterMap (Code.slotUse? slot)

/-- The instructions of a loop that use its counter: it is set, counted down and
    tested. -/
def counterInstrs (counter : Nat) : List Instr :=
  [.istore counter, .decrement counter, .iload counter]

@[simp] theorem slotUses_nil (slot : Nat) : slotUses slot [] = [] := rfl

@[simp] theorem slotUses_append (slot : Nat) (code code' : List Code) :
    slotUses slot (code ++ code') = slotUses slot code ++ slotUses slot code' :=
  List.filterMap_append

@[simp] theorem slotUses_cons_label (slot : Nat) (l : Label) (code : List Code) :
    slotUses slot (.label l :: code) = slotUses slot code := rfl

theorem slotUses_cons_instr (slot : Nat) (i : Instr) (code : List Code) :
    slotUses slot (.instr i :: code) =
      if i.slot? = some slot then i :: slotUses slot code else slotUses slot code := by
  unfold slotUses
  rw [List.filterMap_cons]
  by_cases h : i.slot? = some slot <;> simp [Code.slotUse?, h]

namespace Fragment

mutual

/-- The constructs of a fragment with their code, each before those inside of it. -/
def constructs : Fragment → List Fragment
  | .instr _ | .label _ => []
  | .expr e parts => .expr e parts :: constructsAll parts
  | .stmt s parts => .stmt s parts :: constructsAll parts

/-- The constructs of fragments in a row. -/
def constructsAll : List Fragment → List Fragment
  | [] => []
  | p :: rest => p.constructs ++ constructsAll rest

end

@[simp] theorem constructs_instr (i : Instr) : (instr i).constructs = [] := by
  rw [constructs]

@[simp] theorem constructs_label (l : Label) : (label l).constructs = [] := by
  rw [constructs]

@[simp] theorem constructs_expr (e : Expr) (parts : List Fragment) :
    (expr e parts).constructs = expr e parts :: constructsAll parts := by
  rw [constructs]

@[simp] theorem constructs_stmt (s : Stmt) (parts : List Fragment) :
    (stmt s parts).constructs = stmt s parts :: constructsAll parts := by
  rw [constructs]

@[simp] theorem constructsAll_nil : constructsAll [] = [] := by
  rw [constructsAll]

@[simp] theorem constructsAll_cons (p : Fragment) (rest : List Fragment) :
    constructsAll (p :: rest) = p.constructs ++ constructsAll rest := by
  rw [constructsAll]

@[simp] theorem constructsAll_append (ps qs : List Fragment) :
    constructsAll (ps ++ qs) = constructsAll ps ++ constructsAll qs := by
  induction ps with
  | nil => simp
  | cons p rest ih => simp [ih]

/-- The construct that a fragment is the code of. -/
def node? : Fragment → Option SourceNode
  | .instr _ | .label _ => none
  | .expr e _ => some (.expr e)
  | .stmt s _ => some (.stmt s)

mutual

theorem nodes_eq : ∀ p : Fragment, p.nodes = p.constructs.filterMap node?
  | .instr _ => by simp
  | .label _ => by simp
  | .expr e parts => by simp [node?, nodesAll_eq parts]
  | .stmt s parts => by simp [node?, nodesAll_eq parts]

theorem nodesAll_eq : ∀ parts : List Fragment,
    nodesAll parts = (constructsAll parts).filterMap node?
  | [] => by simp
  | p :: rest => by simp [nodes_eq p, nodesAll_eq rest]

end

/-- The instruction that a fragment is, if it uses a slot. -/
def ownSlotInstr? : Fragment → Option Instr
  | .instr i => if i.slot?.isSome then some i else none
  | _ => none

/-- The instructions that use slots and stand between the constructs of a code, not
    inside of one of them. -/
def slotInstrs (parts : List Fragment) : List Instr :=
  parts.filterMap ownSlotInstr?

@[simp] theorem slotInstrs_nil : slotInstrs [] = [] := rfl

@[simp] theorem slotInstrs_append (ps qs : List Fragment) :
    slotInstrs (ps ++ qs) = slotInstrs ps ++ slotInstrs qs :=
  List.filterMap_append

@[simp] theorem slotInstrs_cons_expr (e : Expr) (ps rest : List Fragment) :
    slotInstrs (.expr e ps :: rest) = slotInstrs rest := rfl

@[simp] theorem slotInstrs_cons_stmt (s : Stmt) (ps rest : List Fragment) :
    slotInstrs (.stmt s ps :: rest) = slotInstrs rest := rfl

@[simp] theorem slotInstrs_cons_label (l : Label) (rest : List Fragment) :
    slotInstrs (.label l :: rest) = slotInstrs rest := rfl

@[simp] theorem slotInstrs_cons_plain {i : Instr} (h : i.slot? = none) (rest : List Fragment) :
    slotInstrs (.instr i :: rest) = slotInstrs rest := by
  simp [slotInstrs, ownSlotInstr?, h]

theorem slotInstrs_cons_slot {i : Instr} (h : i.slot?.isSome) (rest : List Fragment) :
    slotInstrs (.instr i :: rest) = i :: slotInstrs rest := by
  simp [slotInstrs, ownSlotInstr?, h]

theorem slotInstrs_map_plain {is : List Instr} (h : ∀ i ∈ is, i.slot? = none) :
    slotInstrs (is.map Fragment.instr) = [] := by
  induction is with
  | nil => rfl
  | cons i rest ih =>
      rw [List.map_cons, slotInstrs_cons_plain (h i List.mem_cons_self)]
      exact ih fun j hj => h j (List.mem_cons_of_mem i hj)

/-- Whether a fragment is the code of a loop. -/
def isLoop : Fragment → Bool
  | .stmt (.loop _ _) _ => true
  | _ => false

/-- The loops in a code, each before those inside of it. -/
def loops (parts : List Fragment) : List Fragment :=
  (constructsAll parts).filter isLoop

/-- The slots that the code of a construct uses itself are those of this counter. -/
def HasCounter : Fragment → Nat → Prop
  | .stmt _ parts, counter => slotInstrs parts = counterInstrs counter
  | _, _ => False

end Fragment

open Fragment (codeAll constructsAll slotInstrs loops)

-- ============================================================================
-- The rules
-- ============================================================================

/-- The code of a pointer to a function, which holds the receiver. -/
def pointerParts (name : String) : List Fragment :=
  [.instr (.new fptrClass), .instr .dup, .instr (.aload receiverSlot), .instr (.ldcText name),
    .instr (.invoke .fptrInit)]

/-- Whether a statement stores into a variable or a counter. -/
def Stmt.stores : Stmt → Bool
  | .declare _ _ _ | .assign _ _ | .loop _ _ => true
  | _ => false

/-- What a construct may do with slots itself, where the names have the slots `names`. -/
inductive SlotRule (S : Setting) (names : String → Option Nat) : Fragment → Prop where
  | read {name : String} {slot : Nat} :
      S.symbols.function? name = none → names name = some slot →
      SlotRule S names (.expr (.ident name) [.instr (.aload slot)])
  | pointer {name : String} {signature : Signature} :
      S.symbols.function? name = some signature →
      SlotRule S names (.expr (.ident name) (pointerParts name))
  | value {e : Expr} {parts : List Fragment} :
      (∀ name, e ≠ .ident name) → slotInstrs parts = [] → SlotRule S names (.expr e parts)
  | declare {name : String} {ty : Ty} {value : Option Expr} {parts : List Fragment} {slot : Nat} :
      names name = some slot → slotInstrs parts = [.astore slot] →
      SlotRule S names (.stmt (.declare name ty value) parts)
  | assign {name : String} {value : Expr} {parts : List Fragment} {slot : Nat} :
      names name = some slot → slotInstrs parts = [.astore slot] →
      SlotRule S names (.stmt (.assign (.ident name) value) parts)
  | loop {count : Expr} {body : Stmt} {parts : List Fragment} {counter : Nat} :
      slotInstrs parts = counterInstrs counter →
      SlotRule S names (.stmt (.loop count body) parts)
  | other {s : Stmt} {parts : List Fragment} :
      s.stores = false → slotInstrs parts = [] → SlotRule S names (.stmt s parts)

/-- A slot that is neither the receiver's nor that of a name. -/
structure Anonymous (names : String → Option Nat) (slot : Nat) : Prop where
  positive : receiverSlot < slot
  unnamed : ∀ name, names name ≠ some slot

/-- The slots of a method with the given parameters and code are used soundly, where the
    names have the slots `names`. -/
structure SlotsSound (S : Setting) (names : String → Option Nat) (params : List String)
    (parts : List Fragment) : Prop where
  positive : ∀ name slot, names name = some slot → receiverSlot < slot
  injective : ∀ name name' slot, names name = some slot → names name' = some slot → name = name'
  params : params.Nodup → ∀ k name, params[k]? = some name → names name = some (k + 1)
  rules : ∀ p ∈ constructsAll parts, SlotRule S names p
  outside : ∀ i ∈ slotInstrs parts, i = .aload receiverSlot
  receiver : ∀ i ∈ slotUses receiverSlot (codeAll parts), i = .aload receiverSlot
  loops : ∃ counters, counters.Nodup ∧ List.Forall₂ Fragment.HasCounter (loops parts) counters ∧
    ∀ c ∈ counters, Anonymous names c ∧ slotUses c (codeAll parts) = counterInstrs c

/-- The code of a method with the given parameters and constructs: every construct has the
    code that lowering it emits, and the slots are used soundly. -/
def SoundMethod (S : Setting) (params : List String) (nodes : List SourceNode)
    (code : List Code) : Prop :=
  ∃ parts names, code = codeAll parts ∧ Fragment.GenuineAll S parts ∧
    (constructsAll parts).filterMap Fragment.node? = nodes ∧ SlotsSound S names params parts

-- ============================================================================
-- Code that follows the rules
-- ============================================================================

/-- Code that follows the rules, and whose loops have these counters. -/
structure SlotRun (S : Setting) (names : String → Option Nat) (parts : List Fragment)
    (counters : List Nat) : Prop where
  rules : ∀ p ∈ constructsAll parts, SlotRule S names p
  loops : List.Forall₂ Fragment.HasCounter (loops parts) counters
  increasing : counters.Pairwise (· < ·)
  anonymous : ∀ c ∈ counters, Anonymous names c
  uses : ∀ c, Anonymous names c →
    slotUses c (codeAll parts) = if c ∈ counters then counterInstrs c else []
  receiver : ∀ i ∈ slotUses receiverSlot (codeAll parts), i = .aload receiverSlot

namespace SlotRun

variable {S : Setting} {names : String → Option Nat} {parts ps qs rest : List Fragment}
  {counters cs ds : List Nat}

@[simp] theorem nil : SlotRun S names [] [] := by
  refine ⟨by simp, ?_, .nil, by simp, by simp, by simp⟩
  exact .nil

theorem append (h : SlotRun S names ps cs) (h' : SlotRun S names qs ds)
    (hlt : ∀ c ∈ cs, ∀ d ∈ ds, c < d) : SlotRun S names (ps ++ qs) (cs ++ ds) := by
  refine ⟨?_, ?_, List.pairwise_append.mpr ⟨h.increasing, h'.increasing, hlt⟩, ?_, ?_, ?_⟩
  · intro p hp
    rw [Fragment.constructsAll_append, List.mem_append] at hp
    exact hp.elim (h.rules p) (h'.rules p)
  · rw [Fragment.loops, Fragment.constructsAll_append, List.filter_append]
    exact List.rel_append h.loops h'.loops
  · intro c hc
    exact (List.mem_append.mp hc).elim (h.anonymous c) (h'.anonymous c)
  · intro c hc
    rw [Fragment.codeAll_append, slotUses_append, h.uses c hc, h'.uses c hc]
    by_cases hcs : c ∈ cs
    · have hds : c ∉ ds := fun hd => Nat.lt_irrefl c (hlt c hcs c hd)
      simp [hcs, hds]
    · simp [hcs]
  · intro i hi
    rw [Fragment.codeAll_append, slotUses_append, List.mem_append] at hi
    exact hi.elim (h.receiver i) (h'.receiver i)

/-- An instruction with the slot of a name, or one that loads the receiver. -/
theorem instr {i : Instr} (hi : ∀ slot, i.slot? = some slot →
    i = .aload receiverSlot ∨ receiverSlot < slot ∧ ∃ name, names name = some slot) :
    SlotRun S names [.instr i] [] := by
  refine ⟨by simp, .nil, .nil, by simp, ?_, ?_⟩
  · intro c hc
    have hne : i.slot? ≠ some c := by
      intro hslot
      rcases hi c hslot with rfl | ⟨-, name, hname⟩
      · obtain rfl : receiverSlot = c := Option.some.inj hslot
        exact Nat.lt_irrefl _ hc.positive
      · exact hc.unnamed name hname
    simp [slotUses_cons_instr, hne]
  · intro j hj
    by_cases hslot : i.slot? = some receiverSlot
    · obtain rfl : j = i := by simpa [slotUses_cons_instr, hslot] using hj
      exact (hi receiverSlot hslot).elim id fun h => absurd h.1 (Nat.lt_irrefl _)
    · simp [slotUses_cons_instr, hslot] at hj

theorem label (l : Label) : SlotRun S names [.label l] [] :=
  ⟨by simp, .nil, .nil, by simp, by simp, by simp⟩

/-- The code of an expression, of which the expression's own part follows the rules. -/
theorem expr {e : Expr} (hrule : SlotRule S names (.expr e parts))
    (h : SlotRun S names parts counters) : SlotRun S names [.expr e parts] counters := by
  refine ⟨?_, ?_, h.increasing, h.anonymous, ?_, ?_⟩
  · intro p hp
    rw [Fragment.constructsAll_cons, Fragment.constructs_expr, Fragment.constructsAll_nil,
      List.append_nil, List.mem_cons] at hp
    rcases hp with rfl | hp
    · exact hrule
    · exact h.rules p hp
  · simpa [Fragment.loops, Fragment.isLoop] using h.loops
  · simpa using h.uses
  · simpa using h.receiver

/-- The code of a statement other than a loop. -/
theorem stmt {s : Stmt} (hrule : SlotRule S names (.stmt s parts))
    (hloop : (Fragment.stmt s parts).isLoop = false) (h : SlotRun S names parts counters) :
    SlotRun S names [.stmt s parts] counters := by
  refine ⟨?_, ?_, h.increasing, h.anonymous, ?_, ?_⟩
  · intro p hp
    rw [Fragment.constructsAll_cons, Fragment.constructs_stmt, Fragment.constructsAll_nil,
      List.append_nil, List.mem_cons] at hp
    rcases hp with rfl | hp
    · exact hrule
    · exact h.rules p hp
  · simpa [Fragment.loops, hloop] using h.loops
  · simpa using h.uses
  · simpa using h.receiver

/-- An instruction without a slot in front of a code. -/
@[simp] theorem cons_plain {i : Instr} (hi : i.slot? = none) :
    SlotRun S names (.instr i :: rest) counters ↔ SlotRun S names rest counters := by
  constructor
  · intro h
    exact ⟨by simpa using h.rules, by simpa [Fragment.loops] using h.loops, h.increasing,
      h.anonymous, by simpa [slotUses_cons_instr, hi] using h.uses,
      by simpa [slotUses_cons_instr, hi] using h.receiver⟩
  · intro h
    exact append (instr (by simp [hi])) h (by simp)

@[simp] theorem cons_label {l : Label} :
    SlotRun S names (.label l :: rest) counters ↔ SlotRun S names rest counters := by
  constructor
  · intro h
    exact ⟨by simpa using h.rules, by simpa [Fragment.loops] using h.loops, h.increasing,
      h.anonymous, by simpa using h.uses, by simpa using h.receiver⟩
  · intro h
    exact append (label l) h (by simp)

theorem map_plain {is : List Instr} (h : ∀ i ∈ is, i.slot? = none) :
    SlotRun S names (is.map Fragment.instr) [] := by
  induction is with
  | nil => exact nil
  | cons i rest ih =>
      rw [List.map_cons, cons_plain (h i List.mem_cons_self)]
      exact ih fun j hj => h j (List.mem_cons_of_mem i hj)

/-- The code of an expression, which has no loops, in front of a code. -/
@[simp] theorem cons_expr {e : Expr} (hrule : SlotRule S names (.expr e parts))
    (hparts : SlotRun S names parts []) :
    SlotRun S names (.expr e parts :: rest) counters ↔ SlotRun S names rest counters := by
  constructor
  · intro h
    have hloops : Fragment.loops parts = [] := List.forall₂_nil_right_iff.mp hparts.loops
    have hrules := h.rules
    simp only [Fragment.constructsAll_cons, Fragment.constructs_expr, List.cons_append,
      List.mem_cons, List.mem_append] at hrules
    refine ⟨fun p hp => hrules p (.inr (.inr hp)), ?_, h.increasing, h.anonymous, ?_, ?_⟩
    · have hrest := h.loops
      rw [Fragment.loops] at hloops
      simpa [Fragment.loops, Fragment.isLoop, hloops] using hrest
    · intro c hc
      simpa [hparts.uses c hc] using h.uses c hc
    · intro i hi
      exact h.receiver i (by simp [hi])
  · intro h
    exact append (expr hrule hparts) h (by simp)

end SlotRun

-- ============================================================================
-- Lowering follows the rules
-- ============================================================================

@[simp] theorem ArithOp.slot?_instr (op : ArithOp) : op.instr.slot? = none := by
  cases op <;> rfl

@[simp] theorem LogicOp.slot?_decided (op : LogicOp) : op.decided.slot? = none := by
  cases op <;> rfl

@[simp] theorem slot?_narrowing (result : Ty) : (narrowing result).slot? = none := by
  unfold narrowing
  split <;> rfl

theorem slot?_dropping {ty : Ty} : ∀ i ∈ dropping ty, i.slot? = none := by
  unfold dropping
  split <;> simp [Instr.slot?]

theorem ZeroCode.slot?_eq_none {S : Setting} {id : ScopeId} {ty : Ty} {is : List Instr}
    (h : ZeroCode S id ty is) : ∀ i ∈ is, i.slot? = none := by
  cases h <;> simp [Instr.slot?]

open SlotTable (Extends)

section Lowering

variable {S : Setting} {final : SlotTable}

/-- An instruction that uses the slot of a name. -/
theorem SlotRun.named {name : String} {slot : Nat} {i : Instr} (hfinal : SlotTable.Sound final)
    (hslot : final.get? name = some slot) (hi : i.slot? = some slot) :
    SlotRun S final.get? [.instr i] [] := by
  refine .instr ?_
  intro used hused
  obtain rfl : slot = used := Option.some.inj (hi.symm.trans hused)
  exact .inr ⟨hfinal.positive name slot hslot, name, hslot⟩

/-- What lowering an expression or arguments does with slots. -/
def ExprTask.Tidy (S : Setting) (names : String → Option Nat) : ExprTask → List Fragment → Prop
  | .one e, parts => SlotRule S names (.expr e parts) ∧ SlotRun S names parts []
  | .args _, parts => slotInstrs parts = [] ∧ SlotRun S names parts []

theorem ExprLowered.tidy (hfinal : SlotTable.Sound final) {t : ExprTask} {f f' : Frame}
    {parts : List Fragment} (h : ExprLowered S t f parts f') :
    Extends f'.slots final → t.Tidy S final.get? parts := by
  induction h with
  | int => exact fun _ => ⟨.value (by simp) (by simp), by simp⟩
  | @bool _ b =>
      intro _
      cases b <;> exact ⟨.value (by simp) (by simp), by simp⟩
  | @function _ name _ _ hfound _ _ =>
      intro _
      have hload : SlotRun S final.get? [.instr (.aload receiverSlot)] [] :=
        .instr fun _ _ => .inl rfl
      have hrest : SlotRun S final.get? [.instr (.ldcText name), .instr (.invoke .fptrInit)] [] := by
        simp [Instr.slot?]
      refine ⟨.pointer (SymbolTable.function?_of_lookup hfound), ?_⟩
      simpa using hload.append hrest (by simp)
  | «variable» hfound hs =>
      intro hext
      have hslot := hext.kept _ _ hs.get?
      exact ⟨.read (SymbolTable.function?_of_lookup hfound) hslot, .named hfinal hslot rfl⟩
  | group _ ih | not _ ih | neg _ ih | size _ ih =>
      intro hext
      obtain ⟨hrule, hrun⟩ := ih hext
      exact ⟨.value (by simp) (by simp), by simp [hrule, hrun]⟩
  | arith _ hr ihl ihr | append _ hr ihl ihr | index _ _ _ hr ihl ihr | logic _ hr ihl ihr =>
      intro hext
      obtain ⟨hruleL, hrunL⟩ := ihl (hr.extends.trans hext)
      obtain ⟨hruleR, hrunR⟩ := ihr hext
      exact ⟨.value (by simp) (by simp),
        by simp [hruleL, hrunL, hruleR, hrunR]⟩
  | order _ hr ihl ihr | equalValues _ _ _ hr ihl ihr | equalReferences _ _ _ hr ihl ihr =>
      intro hext
      obtain ⟨hruleL, hrunL⟩ := ihl (hr.extends.trans hext)
      obtain ⟨hruleR, hrunR⟩ := ihr hext
      exact ⟨.value (by simp) (by simp [conditionParts]),
        by simp [hruleL, hrunL, hruleR, hrunR, conditionParts]⟩
  | @call _ _ _ _ _ _ _ _ result _ _ ha iht iha =>
      intro hext
      obtain ⟨hrule, hrun⟩ := iht (ha.extends.trans hext)
      obtain ⟨hown, hargs⟩ := iha hext
      have hend : SlotRun S final.get?
          [.instr (.invoke .fptrInvoke), .instr (narrowing result)] [] := by simp
      refine ⟨.value (by simp) (by simp [hown]), ?_⟩
      simpa [hrule, hrun] using hargs.append hend (by simp)
  | argsNil => exact fun _ => ⟨rfl, .nil⟩
  | argsCopied _ _ ha ih iha | argsPassed _ _ _ ha ih iha =>
      intro hext
      obtain ⟨hrule, hrun⟩ := ih (ha.extends.trans hext)
      obtain ⟨hown, hargs⟩ := iha hext
      exact ⟨by simp [hown], by simp [hrule, hrun, hargs]⟩

/-- A loop counts in the next slot, which no name has then or later. -/
theorem SlotTable.anonymous_next {f : Frame} (hf : SlotTable.Sound f.slots)
    (hext : Extends f.afterSlot.slots final) : Anonymous final.get? f.slots.next := by
  refine ⟨hf.next_positive, ?_⟩
  intro name hname
  rcases hext.fresh name _ hname with hknown | hle
  · exact Nat.lt_irrefl _ (hf.used name _ hknown)
  · exact Nat.lt_irrefl _ hle

/-- The own code of a loop around that of its count and its body. -/
def loopParts (count : Expr) (body : Stmt) (pc pb : List Fragment) (counter : Nat)
    (start check : Label) : List Fragment :=
  [.expr count pc, .instr (.invoke .integerIntValue), .instr (.istore counter),
    .instr (.goto check), .label start, .stmt body pb, .instr (.decrement counter),
    .label check, .instr (.iload counter), .instr (.branch .ifgt start)]

theorem slotInstrs_loopParts (count : Expr) (body : Stmt) (pc pb : List Fragment) (counter : Nat)
    (start check : Label) :
    slotInstrs (loopParts count body pc pb counter start check) = counterInstrs counter := by
  simp [loopParts, Fragment.slotInstrs_cons_slot, counterInstrs]

theorem constructsAll_loopParts (count : Expr) (body : Stmt) (pc pb : List Fragment) (counter : Nat)
    (start check : Label) :
    constructsAll (loopParts count body pc pb counter start check) =
      .expr count pc :: (constructsAll pc ++ constructsAll [.stmt body pb]) := by
  simp [loopParts]

theorem SlotRun.loop {count : Expr} {body : Stmt} {pc pb : List Fragment} {cs : List Nat}
    {counter : Nat} {start check : Label} (hcounter : Anonymous final.get? counter)
    (hrule : SlotRule S final.get? (.expr count pc)) (hcount : SlotRun S final.get? pc [])
    (hbody : SlotRun S final.get? [.stmt body pb] cs) (hlt : ∀ c ∈ cs, counter < c) :
    SlotRun S final.get?
      [.stmt (.loop count body) (loopParts count body pc pb counter start check)]
      (counter :: cs) := by
  have hloops : Fragment.loops pc = [] := List.forall₂_nil_right_iff.mp hcount.loops
  have hbodyUses := hbody.uses
  have hbodyReceiver := hbody.receiver
  simp only [Fragment.codeAll_cons, Fragment.code_stmt, Fragment.codeAll_nil, List.append_nil]
    at hbodyUses hbodyReceiver
  refine ⟨?_, ?_, List.pairwise_cons.mpr ⟨hlt, hbody.increasing⟩, ?_, ?_, ?_⟩
  · intro p hp
    rw [Fragment.constructsAll_cons, Fragment.constructs_stmt, constructsAll_loopParts,
      Fragment.constructsAll_nil, List.append_nil, List.mem_cons, List.mem_cons,
      List.mem_append] at hp
    rcases hp with rfl | rfl | hp | hp
    · exact .loop (slotInstrs_loopParts ..)
    · exact hrule
    · exact hcount.rules p hp
    · exact hbody.rules p hp
  · rw [Fragment.loops] at hloops
    rw [Fragment.loops, Fragment.constructsAll_cons, Fragment.constructs_stmt,
      constructsAll_loopParts, Fragment.constructsAll_nil, List.append_nil,
      List.filter_cons_of_pos rfl, List.filter_cons_of_neg (by simp [Fragment.isLoop]),
      List.filter_append, hloops, List.nil_append]
    exact .cons (slotInstrs_loopParts ..) hbody.loops
  · intro c hc
    rcases List.mem_cons.mp hc with rfl | hc
    · exact hcounter
    · exact hbody.anonymous c hc
  · intro c hc
    -- the counter is used here and not in the body, other slots in the body only
    by_cases heq : counter = c
    · subst heq
      have hnot : counter ∉ cs := fun hmem => Nat.lt_irrefl _ (hlt counter hmem)
      simp [loopParts, slotUses_cons_instr, hcount.uses counter hc, hbodyUses counter hc, hnot,
        counterInstrs]
    · have hne : c ≠ counter := fun h => heq h.symm
      simp [loopParts, slotUses_cons_instr, hcount.uses c hc, hbodyUses c hc, heq, hne]
  · intro i hi
    have hne : counter ≠ receiverSlot := fun h => Nat.lt_irrefl _ (h ▸ hcounter.positive)
    simp only [loopParts, Fragment.codeAll_cons, Fragment.code_stmt, Fragment.code_expr,
      Fragment.code_instr, Fragment.code_label, Fragment.codeAll_nil, List.append_nil, List.cons_append, List.nil_append,
      slotUses_append, slotUses_cons_instr, slotUses_cons_label, slotUses_nil, Option.some.injEq,
      hne, if_false, reduceCtorEq, List.mem_append] at hi
    rcases hi with hi | hi
    · exact hcount.receiver i hi
    · exact hbodyReceiver i hi

/-- What lowering statements does with slots: the code follows the rules, and its
    counters are slots that were taken meanwhile. -/
def StmtTask.Tidy (S : Setting) (names : String → Option Nat) (f f' : Frame) :
    StmtTask → List Fragment → Prop
  | .one s, parts => ∃ counters, SlotRun S names [.stmt s parts] counters ∧
      ∀ c ∈ counters, f.slots.next ≤ c ∧ c < f'.slots.next
  | .many _, parts => slotInstrs parts = [] ∧ ∃ counters, SlotRun S names parts counters ∧
      ∀ c ∈ counters, f.slots.next ≤ c ∧ c < f'.slots.next

/-- Counters that are taken one after the other. -/
theorem counters_append {cs ds : List Nat} {low middle high : Nat}
    (hcs : ∀ c ∈ cs, low ≤ c ∧ c < middle) (hds : ∀ d ∈ ds, middle ≤ d ∧ d < high)
    (hlow : low ≤ middle) (hhigh : middle ≤ high) :
    (∀ c ∈ cs, ∀ d ∈ ds, c < d) ∧ ∀ c ∈ cs ++ ds, low ≤ c ∧ c < high := by
  refine ⟨fun c hc d hd => Nat.lt_of_lt_of_le (hcs c hc).2 (hds d hd).1, fun c hc => ?_⟩
  rcases List.mem_append.mp hc with hc | hc
  · exact ⟨(hcs c hc).1, Nat.lt_of_lt_of_le (hcs c hc).2 hhigh⟩
  · exact ⟨Nat.le_trans hlow (hds c hc).1, (hds c hc).2⟩

/-- Statements without counters of their own. -/
theorem StmtTask.Tidy.plain {s : Stmt} {f f' : Frame} {parts : List Fragment}
    {names : String → Option Nat} (hloop : (Fragment.stmt s parts).isLoop = false)
    (hrule : SlotRule S names (.stmt s parts)) (hrun : SlotRun S names parts []) :
    (StmtTask.one s).Tidy S names f f' parts :=
  ⟨[], .stmt hrule hloop hrun, by simp⟩

theorem StmtLowered.tidy (hfinal : SlotTable.Sound final) {t : StmtTask} {f f' : Frame}
    {parts : List Fragment} (h : StmtLowered S t f parts f') :
    SlotTable.Sound f.slots → Extends f'.slots final → t.Tidy S final.get? f f' parts := by
  induction h with
  | block _ ih =>
      intro hf hext
      obtain ⟨hown, counters, hrun, hrange⟩ := ih hf hext
      exact ⟨counters, .stmt (.other rfl hown) rfl hrun, hrange⟩
  | @declare _ _ _ name _ _ _ slot he hs =>
      intro hf hext
      obtain ⟨hrule, hrun⟩ := he.tidy hfinal (hs.extends.trans hext)
      have hslot := hext.kept _ _ hs.get?
      have hstore : SlotRun S final.get? [.instr (.astore slot)] [] := .named hfinal hslot rfl
      refine .plain rfl (.declare hslot ?_) (by simp [hrule, hrun, hstore])
      simp [Fragment.slotInstrs_cons_slot]
  | @declareZero _ _ name _ is slot hz hs =>
      intro hf hext
      have hslot := hext.kept _ _ hs.get?
      have hstore : SlotRun S final.get? [.instr (.astore slot)] [] := .named hfinal hslot rfl
      refine .plain rfl (.declare hslot ?_)
        ((SlotRun.map_plain hz.slot?_eq_none).append hstore (by simp))
      simp [Fragment.slotInstrs_cons_slot, Fragment.slotInstrs_map_plain hz.slot?_eq_none]
  | @assign _ _ _ name _ _ slot he hs =>
      intro hf hext
      obtain ⟨hrule, hrun⟩ := he.tidy hfinal (hs.extends.trans hext)
      have hslot := hext.kept _ _ hs.get?
      have hstore : SlotRun S final.get? [.instr (.astore slot)] [] := .named hfinal hslot rfl
      refine .plain rfl (.assign hslot ?_) (by simp [hrule, hrun, hstore])
      simp [Fragment.slotInstrs_cons_slot]
  | @cond f _ _ _ test positive _ pt pp _ ht hp hn ihp ihn =>
      intro hf hext
      have hext₁ := hp.extends.trans (hn.extends.trans hext)
      obtain ⟨hrule, hrun⟩ := ht.tidy hfinal hext₁
      obtain ⟨cs, hpos, hrange⟩ := ihp (ht.sound hf) (hn.extends.trans hext)
      obtain ⟨hown, ds, hneg, hranges⟩ := ihn (hp.sound (ht.sound hf)) hext
      obtain ⟨hlt, hbetween⟩ :=
        counters_append hrange hranges hp.extends.next_le hn.extends.next_le
      have hend : SlotRun S final.get? [.label f.nextLabel.next, .instr .nop] [] := by simp
      have hmiddle : SlotRun S final.get?
          [.instr (.goto f.nextLabel.next), .label f.nextLabel, .instr .nop] [] := by simp
      have hall := (hpos.append (hmiddle.append (hneg.append hend (by simp)) (by simp))
        (by simpa using hlt))
      refine ⟨cs ++ ds, .stmt (.other rfl (by simp [hown])) rfl ?_, ?_⟩
      · simpa [hrule, hrun] using hall
      · intro c hc
        exact ⟨Nat.le_trans ht.extends.next_le (hbetween c hc).1, (hbetween c hc).2⟩
  | @loop f f₁ f' count body pc pb _ hc hb ihb =>
      intro hf hext
      have hext₁ := hb.extends.trans hext
      obtain ⟨hrule, hcount⟩ := hc.tidy hfinal hext₁
      obtain ⟨counters, hbody, hrange⟩ := ihb (hc.sound (Frame.sound_afterSlot hf)) hext
      have hnext : f.slots.next + 1 ≤ f₁.slots.next := hc.extends.next_le
      have hnext' := hb.extends.next_le
      have hcounter : Anonymous final.get? f.slots.next :=
        SlotTable.anonymous_next hf (hc.extends.trans hext₁)
      refine ⟨f.slots.next :: counters, .loop hcounter hrule hcount hbody ?_, ?_⟩
      · intro c hmem
        have := hrange c hmem
        omega
      · intro c hmem
        rcases List.mem_cons.mp hmem with rfl | hmem
        · omega
        · have := hrange c hmem
          omega
  | call _ hc =>
      intro hf hext
      obtain ⟨hrule, hrun⟩ := hc.tidy hfinal hext
      refine .plain rfl (.other rfl ?_) ?_
      · rw [Fragment.slotInstrs_cons_expr, Fragment.slotInstrs_map_plain slot?_dropping]
      · simpa [hrule, hrun] using SlotRun.map_plain slot?_dropping
  | ret => exact fun _ _ => .plain rfl (.other rfl (by simp)) (by simp)
  | @retValue _ _ _ _ ty _ he =>
      intro hf hext
      obtain ⟨hrule, hrun⟩ := he.tidy hfinal hext
      cases hv : ty.isVoid <;>
        exact .plain rfl (.other rfl (by simp)) (by simp [hrule, hrun])
  | display _ _ _ he | append he | size he =>
      intro hf hext
      obtain ⟨hrule, hrun⟩ := he.tidy hfinal hext
      exact .plain rfl (.other rfl (by simp)) (by simp [hrule, hrun])
  | nil => exact fun _ _ => ⟨rfl, [], .nil, by simp⟩
  | cons hs hss ih ihs =>
      intro hf hext
      obtain ⟨cs, hrun, hrange⟩ := ih hf (hss.extends.trans hext)
      obtain ⟨hown, ds, hruns, hranges⟩ := ihs (hs.sound hf) hext
      obtain ⟨hlt, hbetween⟩ :=
        counters_append hrange hranges hs.extends.next_le hss.extends.next_le
      exact ⟨by simp [hown], cs ++ ds, hrun.append hruns hlt, hbetween⟩

-- ============================================================================
-- Methods
-- ============================================================================

/-- The slots of a method whose body is lowered from a sound table. What comes before and
    after the body only loads the receiver. -/
theorem StmtLowered.soundMethod {ss : List Stmt} {f f' : Frame} {p before after : List Fragment}
    {params : List String} (h : StmtLowered S (.many ss) f p f')
    (hgenuine : Fragment.GenuineAll S (before ++ p ++ after)) (hf : SlotTable.Sound f.slots)
    (hparams : params.Nodup → ∀ k name, params[k]? = some name →
      f.slots.get? name = some (k + 1))
    (hbefore : SlotRun S f'.slots.get? before []) (hafter : SlotRun S f'.slots.get? after [])
    (hload : ∀ i ∈ slotInstrs before ++ slotInstrs after, i = .aload receiverSlot)
    (hconstructs : constructsAll before ++ constructsAll after = []) :
    SoundMethod S params (Stmt.nodesOf ss) (codeAll (before ++ p ++ after)) := by
  have hfinal := h.sound hf
  obtain ⟨hown, counters, hbody, -⟩ := h.tidy hfinal hf (.refl _)
  have hrun : SlotRun S f'.slots.get? (before ++ p ++ after) counters := by
    simpa using (hbefore.append hbody (by simp)).append hafter (by simp)
  obtain ⟨hnone, hnone'⟩ := List.append_eq_nil_iff.mp hconstructs
  refine ⟨_, f'.slots.get?, rfl, hgenuine, ?_, ?_⟩
  · have hnodes := h.nodes
    rw [Fragment.nodesAll_eq] at hnodes
    simpa [hnone, hnone', StmtTask.inside] using hnodes
  · refine ⟨hfinal.positive, hfinal.injective, ?_, hrun.rules, ?_, hrun.receiver, ?_⟩
    · intro hdistinct k name hk
      exact h.extends.kept _ _ (hparams hdistinct k name hk)
    · intro i hi
      refine hload i ?_
      simpa [hown] using hi
    · refine ⟨counters, hrun.increasing.imp Nat.ne_of_lt, hrun.loops, ?_⟩
      intro c hc
      have huses := hrun.uses c (hrun.anonymous c hc)
      rw [if_pos hc] at huses
      exact ⟨hrun.anonymous c hc, huses⟩

end Lowering

/-- The slots of every method are used soundly, in whatever frame the function or the entry
    class is lowered. -/
theorem slots_of_methods {S : Setting} {f f' : Frame} {acts : List Action} :
    (∀ fn : FunctionDef, Emits fn.lower S f () acts f' →
      ∃ signature code, S.symbols.function? fn.name = some signature ∧
        codesOf acts = .methodHeader ("public " ++ fn.name ++ signature.descriptor) ::
          (code ++ [.endMethod]) ∧
        SoundMethod S (signature.params.map Binding.name) (Stmt.nodesOf fn.body) code) ∧
    ∀ (body : List Stmt) (functions : List FunctionDef),
      Emits (lowerEntry body functions) S f () acts f' →
      ∃ code rest, codesOf acts = .classHeader entryClass ::
          .methodHeader "public static main([Ljava/lang/String;)V" :: .entryBody ::
          .methodHeader "public <init>()V" :: (code ++ .endMethod :: rest) ∧
        SoundMethod S [] (Stmt.nodesOf body) code := by
  refine ⟨?_, ?_⟩
  · intro fn h
    obtain ⟨a⟩ := FunctionDef.lower_actions h
    refine ⟨a.signature, _, SymbolTable.function?_of_lookup a.lookup, a.codes, ?_⟩
    have hend : SlotRun S a.bodyFrame.slots.get? (endParts a.signature) [] ∧
        slotInstrs (endParts a.signature) = [] ∧ constructsAll (endParts a.signature) = [] := by
      unfold endParts
      split <;> simp
    have hmethod : SoundMethod S _ _ (codeAll ([] ++ a.parts ++ endParts a.signature)) :=
      a.body_lowered.soundMethod (by simp [a.body_genuine]) (SlotTable.sound_forMethod a.slots_eq)
        (fun hdistinct k name hk => SlotTable.get?_forMethod a.slots_eq hdistinct hk)
        .nil hend.1 (by simp [hend.2.1]) (by simp [hend.2.2])
    simpa using hmethod
  · intro body functions h
    obtain ⟨before, reports, bodyActs, functionActs, id, p, bodyFrame, rfl, hbefore, hreports, -,
      hbody, hgenuine, hwrites, -⟩ := lowerEntry_split h
    have hsuper : SlotRun S bodyFrame.slots.get? superParts [] := by
      have hload : SlotRun S bodyFrame.slots.get? [.instr (.aload receiverSlot)] [] :=
        .instr fun _ _ => .inl rfl
      have hinit : SlotRun S bodyFrame.slots.get? [.instr (.invoke .objectInit)] [] := by simp
      exact hload.append hinit (by simp)
    have hmethod : SoundMethod S [] (Stmt.nodesOf body) (codeAll (superParts ++ p ++ [.instr .ret])) :=
      hbody.soundMethod (by simp [superParts, hgenuine]) SlotTable.sound_empty (by simp) hsuper
        (by simp) (by simp [superParts, Fragment.slotInstrs_cons_slot]) (by simp [superParts])
    refine ⟨_, codesOf functionActs, ?_, hmethod⟩
    simp [hbefore.codesOf, hreports.codesOf, hwrites.codesOf]

/-- A function with two parameters, in which a loop stands inside of another and a third
    loop comes after them. -/
def nestedLoops : FunctionDef :=
  ⟨"nest", [⟨"n", .int⟩, ⟨"m", .int⟩], .void,
    [.loop (.ident "n") (.loop (.ident "m") (.declare "x" .int (some (.ident "n")))),
      .declare "y" .int none, .loop (.ident "x") (.assign (.ident "y") (.ident "m"))]⟩

/-- A body with a loop around a call to it. -/
def nestingBody : List Stmt :=
  [.declare "k" .int (some (.int 2)),
    .loop (.ident "k") (.call (.ident "nest") [.ident "k", .int 3])]

def nestingSetting : Setting :=
  let symbols := SymbolTable.ofProgram { body := nestingBody, functions := [nestedLoops] }
  ⟨symbols, symbols.typeOf, {}⟩

theorem slots_of_nestedLoops :
    (∃ acts f', Emits nestedLoops.lower nestingSetting .initial () acts f' ∧
      ∃ code, codesOf acts =
          .methodHeader "public nest(Ljava/lang/Integer;Ljava/lang/Integer;)V" ::
            (code ++ [.endMethod]) ∧
        SoundMethod nestingSetting ["n", "m"] (Stmt.nodesOf nestedLoops.body) code) ∧
    ∃ acts f', Emits (lowerEntry nestingBody [nestedLoops]) nestingSetting .initial () acts f' ∧
      ∃ code, SoundMethod nestingSetting [] (Stmt.nodesOf nestingBody) code := by
  have hfunction : Emits nestedLoops.lower nestingSetting .initial () _ _ :=
    ⟨by decide +kernel, rfl, rfl⟩
  have hentry : Emits (lowerEntry nestingBody [nestedLoops]) nestingSetting .initial () _ _ :=
    ⟨by decide +kernel, rfl, rfl⟩
  obtain ⟨signature, code, hsignature, hcodes, hsound⟩ := slots_of_methods.1 nestedLoops hfunction
  obtain ⟨entryCode, _, _, hentrySound⟩ := slots_of_methods.2 nestingBody [nestedLoops] hentry
  cases hsignature
  exact ⟨⟨_, _, hfunction, code, hcodes, hsound⟩, _, _, hentry, entryCode, hentrySound⟩

end JasminGen
