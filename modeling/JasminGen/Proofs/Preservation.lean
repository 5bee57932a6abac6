/-
  JasminGen.Proofs.Preservation

  Programs without calls mean what their code does. The constructor of the entry class is
  read back from the text of its unit and runs on the machine; it stops like the
  interpreter, with the same values printed. Names stand in the text as they are, so a
  name with a line feed in it can make lines of its own. The blanks around a name are lost
  in the text; the machine runs the same with and without them.

  Main results: `Runs.trimmed`, `preserves_output`, `preserves_output_fails`.
-/

import JasminGen.Proofs.Execution
import JasminGen.Proofs.Legible
import JasminGen.Proofs.Symbols

namespace JasminGen

-- ============================================================================
-- Programs without calls
-- ============================================================================

/-- A program whose body is well typed in its scope and has no calls in it, with labels
    that are all different. -/
structure Program.IsCallFree (program : Program) (id : ScopeId) : Prop where
  scope : (SymbolTable.ofProgram program).entryScope? = some id
  typed : ∀ s ∈ program.body, WellTyped (.ofProgram program) id s
  free : Stmt.allCallFree program.body = true
  labels : program.labelCount < UInt32.size

/-- How the machine stops if the interpreter comes to a result. -/
def Stop.ofResult : Except Trap Completion → Stop
  | .ok _ => .returned
  | .error trap => .trapped trap

theorem Stop.ofResult_ne_illegal {r : Except Trap Completion} (h : r ≠ .error .illegal) :
    ofResult r ≠ .trapped .illegal := by
  cases r with
  | ok completion => exact Stop.noConfusion
  | error trap => exact fun htrap => h (congrArg Except.error (Stop.trapped.inj htrap))

/-- The constructor that is read back from the unit of the entry class stops like the
    interpreter, with the same values printed. -/
def Program.PreservesOutput (program : Program) (options : Options) (memory : Memory) : Prop :=
  ∃ text code,
    (generate (.ofProgram program options) program memory).2.output.sink.unit? entryClass =
      some text ∧
    readConstructor text = some code ∧
    Runs code 0 .start (.ofResult program.interpret.1, program.interpret.2.printed)

-- ============================================================================
-- Trimmed names of classes
-- ============================================================================

/-- The class of an object, also if its constructor was not called yet. -/
def Cell.className : Cell → String
  | .raw className | .plain className => className
  | .list _ => listClass
  | .fptr _ _ => fptrClass

/-- Names of the classes of all objects are read back as they are. -/
def TrimmedHeap (heap : List Cell) : Prop :=
  ∀ cell ∈ heap, trimmedName cell.className = cell.className

theorem trimmedName_listClass : trimmedName listClass = listClass := rfl

theorem trimmedName_fptrClass : trimmedName fptrClass = fptrClass := rfl

theorem trimmedName_entryClass : trimmedName entryClass = entryClass := rfl

section Trimmed

variable {code : List Code} {place : Nat} {m m' : Machine} {i : Instr}

theorem TrimmedHeap.set {heap : List Cell} (h : TrimmedHeap heap) (address : Nat) (cell : Cell)
    (hcell : trimmedName cell.className = cell.className) :
    TrimmedHeap (heap.set address cell) := by
  intro other hother
  rcases List.mem_or_eq_of_mem_set hother with hold | rfl
  · exact h other hold
  · exact hcell

theorem Machine.className?_trimmed {w : Word} {className : String} (h : TrimmedHeap m.heap)
    (hclass : m.className? w = some className) : trimmedName className = className := by
  cases w with
  | ref address =>
      simp only [className?] at hclass
      cases hcell : m.heap[address]? with
      | none =>
          rw [hcell] at hclass
          cases hclass
      | some cell =>
          have htrimmed := h cell (List.mem_of_getElem? hcell)
          rw [hcell] at hclass
          cases cell <;> cases hclass <;> exact htrimmed
  | integer | boolean | text =>
      cases hclass
      rfl
  | _ => cases hclass

theorem Machine.construct_trimmed {className : String} {address : Nat} {cell : Cell}
    {stack : List Word} (h : TrimmedHeap m.heap)
    (hok : m.construct className address cell stack = .ok m')
    (hcell : trimmedName cell.className = cell.className) : TrimmedHeap m'.heap := by
  rw [construct] at hok
  split at hok
  · cases hok
    exact h.set address cell hcell
  · cases hok

theorem Method.exec_trimmedHeap {method : Method} (h : TrimmedHeap m.heap)
    (hexec : method.exec m = .ok m') : TrimmedHeap m'.heap := by
  unfold Method.exec at hexec
  split at hexec
  · -- the constructor of `Object` makes an object of the class that was announced
    split at hexec
    · next hcell =>
        have htrimmed := h _ (List.mem_of_getElem? hcell)
        cases hexec
        exact h.set _ _ htrimmed
    · cases hexec
  · cases hexec
    exact h
  · cases hexec
    exact h
  · cases hexec
    exact h
  · cases hexec
    exact h
  · exact Machine.construct_trimmed h hexec trimmedName_listClass
  · split at hexec
    · split at hexec
      · cases hexec
      · cases hexec
        exact h.set _ _ trimmedName_listClass
    · cases hexec
  · split at hexec
    · split at hexec
      · cases hexec
      · split at hexec
        · cases hexec
          exact h
        · cases hexec
    · cases hexec
  · split at hexec
    · cases hexec
      exact h
    · cases hexec
  · exact Machine.construct_trimmed h hexec trimmedName_fptrClass
  · cases hexec
    exact h
  · cases hexec
    exact h
  · cases hexec

/-- Only instructions that make objects or call methods change the heap. -/
theorem Instr.exec_heap (hnew : ∀ className, i ≠ .new className)
    (hinvoke : ∀ method, i ≠ .invoke method) (hexec : i.exec m = .ok m') : m'.heap = m.heap := by
  obtain ⟨stack, slots, heap, printed⟩ := m
  cases i with
  | new className => exact absurd rfl (hnew className)
  | invoke method => exact absurd rfl (hinvoke method)
  | aload slot | iload slot | decrement slot =>
      simp only [exec.eq_def] at hexec
      repeat' split at hexec
      all_goals cases hexec <;> rfl
  | astore slot | checkcast className =>
      cases stack with
      | nil => cases hexec
      | cons w stack =>
          simp only [exec.eq_def] at hexec
          split at hexec
          all_goals cases hexec <;> rfl
  | pop | dup | ineg | istore slot =>
      cases stack with
      | nil => cases hexec
      | cons w stack => cases w <;> cases hexec <;> rfl
  | iadd | isub | imul | ixor =>
      rcases stack with _ | ⟨b, _ | ⟨a, stack⟩⟩
      · cases hexec
      · cases b <;> cases hexec
      · cases b <;> cases a <;> cases hexec
        rfl
  | idiv =>
      rcases stack with _ | ⟨b, _ | ⟨a, stack⟩⟩
      · cases hexec
      · cases b <;> cases hexec
      · cases b <;> cases a <;> try cases hexec
        -- only two integers are divided
        simp only [exec.eq_def] at hexec
        split at hexec
        all_goals cases hexec <;> rfl
  | _ => cases hexec <;> rfl

theorem Instr.Legible.exec_trimmedHeap (hi : i.Legible) (h : TrimmedHeap m.heap)
    (hexec : i.exec m = .ok m') : TrimmedHeap m'.heap := by
  cases i with
  | new className =>
      cases hexec
      refine List.forall_mem_append.mpr ⟨h, List.forall_mem_singleton.mpr ?_⟩
      rcases hi with rfl | rfl
      · exact trimmedName_listClass
      · exact trimmedName_fptrClass
  | invoke method => exact Method.exec_trimmedHeap h hexec
  | _ => exact Instr.exec_heap (by simp) (by simp) hexec ▸ h

/-- A legal instruction does the same with the name in its cast as it is read back. -/
theorem Instr.exec_trimmed (h : TrimmedHeap m.heap) (hlegal : i.exec m ≠ Machine.illegal) :
    i.trimmed.exec m = i.exec m := by
  cases i with
  | checkcast className =>
      cases hstack : m.stack with
      | nil =>
          refine absurd ?_ hlegal
          simp only [exec.eq_def, hstack]
      | cons w stack =>
          simp only [exec.eq_def, hstack] at hlegal
          split at hlegal
          · next hclass =>
              have hsame : w = .null ∨ m.className? w = some (trimmedName className) := by
                rcases hclass with hnull | hclass
                · exact .inl hnull
                · rw [m.className?_trimmed h hclass]
                  exact .inr hclass
              simp only [trimmed, exec.eq_def, hstack, if_pos hclass, if_pos hsame]
          · exact absurd rfl hlegal
  | _ => rfl

theorem Instr.jump?_trimmed (i : Instr) : i.trimmed.jump? = i.jump? := by
  cases i <;> rfl

theorem labelPlace_trimmed (code : List Code) (l : Label) :
    labelPlace (code.map Code.trimmed) l = labelPlace code l := by
  have hsame : ((fun c => decide (c = .label l)) ∘ Code.trimmed) =
      fun c : Code => decide (c = .label l) := by
    funext c
    cases c <;> simp [Code.trimmed]
  rw [labelPlace, labelPlace, List.findIdx?_map, hsame]

theorem jump_heap {l : Label} {s : Nat × Machine} (h : jump code l m = .ok s) :
    s.2.heap = m.heap := by
  rw [jump] at h
  split at h
  · cases h
    rfl
  · cases h

/-- A jump leaves the heap alone. -/
theorem step_jump_heap {j : Jump} {s : Nat × Machine} (hline : code[place]? = some (.instr i))
    (hjump : i.jump? = some j) (hstep : step code place m = .ok s) : s.2.heap = m.heap := by
  cases i with
  | goto l =>
      simp only [step.eq_def, hline] at hstep
      exact jump_heap hstep
  | branch condition l =>
      simp only [step.eq_def, hline] at hstep
      split at hstep
      · have hheap := jump_heap hstep
        exact hheap
      · cases hstep
        rfl
      · cases hstep
  | _ => cases hjump

/-- A legal instruction other than a jump is executed in the same way if it is read back. -/
theorem step_exec_trimmed (hline : code[place]? = some (.instr i)) (hi : i.Legible)
    (hjump : i.jump? = none) (h : TrimmedHeap m.heap)
    (hlegal : step code place m ≠ Machine.illegal) :
    step (code.map Code.trimmed) place m = step code place m ∧
      ∀ s, step code place m = .ok s → TrimmedHeap s.2.heap := by
  have hline' : (code.map Code.trimmed)[place]? = some (.instr i.trimmed) := by
    rw [List.getElem?_map, hline]
    rfl
  rw [step_exec hline hjump] at hlegal ⊢
  rw [step_exec hline' (i.jump?_trimmed.trans hjump)]
  have hexec : i.exec m ≠ Machine.illegal := by
    rintro hexec
    rw [hexec] at hlegal
    exact hlegal rfl
  rw [Instr.exec_trimmed h hexec]
  refine ⟨rfl, fun s hs => ?_⟩
  cases hr : i.exec m with
  | error stop =>
      rw [hr] at hs
      cases hs
  | ok m' =>
      rw [hr] at hs
      cases hs
      exact hi.exec_trimmedHeap h hr

/-- A legal step is the same in the code that is read back. -/
theorem step_trimmed (hcode : ∀ c ∈ code, c.Legible) (h : TrimmedHeap m.heap)
    (hlegal : step code place m ≠ Machine.illegal) :
    step (code.map Code.trimmed) place m = step code place m ∧
      ∀ s, step code place m = .ok s → TrimmedHeap s.2.heap := by
  have hline' : (code.map Code.trimmed)[place]? = (code[place]?).map Code.trimmed :=
    List.getElem?_map
  cases hline : code[place]? with
  | none =>
      refine absurd ?_ hlegal
      simp only [step.eq_def, hline]
  | some line =>
      rw [hline, Option.map_some] at hline'
      cases line with
      | label l =>
          rw [step_label hline, step_label hline']
          exact ⟨rfl, fun s hs => by cases hs; exact h⟩
      | instr i =>
          cases hjump : i.jump? with
          | none =>
              have hi : i.Legible := hcode _ (List.mem_of_getElem? hline)
              exact step_exec_trimmed hline hi hjump h hlegal
          | some j =>
              refine ⟨?_, fun s hs => step_jump_heap hline hjump hs ▸ h⟩
              cases i with
              | goto l | branch condition l =>
                  simp only [step.eq_def, hline, hline', Code.trimmed, Instr.trimmed, jump,
                    labelPlace_trimmed]
              | _ => cases hjump
      | _ =>
          refine absurd ?_ hlegal
          simp only [step.eq_def, hline]

/-- Code that is read back runs like the code that was written, as long as this does
    nothing illegal. -/
theorem Runs.trimmed {result : Stop × List Printed} (hruns : Runs code place m result)
    (hcode : ∀ c ∈ code, c.Legible) (h : TrimmedHeap m.heap)
    (hlegal : result.1 ≠ .trapped .illegal) : Runs (code.map Code.trimmed) place m result := by
  obtain ⟨fuel, hfuel⟩ := hruns
  induction fuel generalizing place m with
  | zero => cases hfuel
  | succ fuel ih =>
      rw [runFor] at hfuel
      cases hstep : step code place m with
      | error stop =>
          rw [hstep] at hfuel
          obtain rfl := Option.some.inj hfuel
          have hne : step code place m ≠ Machine.illegal := by
            rw [hstep]
            intro hillegal
            exact hlegal (Except.error.inj hillegal)
          have hsame := (step_trimmed hcode h hne).1
          exact .of_stop (hsame.trans hstep)
      | ok s =>
          rw [hstep] at hfuel
          have hne : step code place m ≠ Machine.illegal := by
            rw [hstep]
            intro hillegal
            cases hillegal
          obtain ⟨hsame, hheap⟩ := step_trimmed hcode h hne
          exact .of_step (hsame.trans hstep) (ih (hheap s hstep) hfuel)

end Trimmed

-- ============================================================================
-- The constructor runs
-- ============================================================================

/-- The constructor first calls the constructor of the superclass. -/
theorem Reaches.superCall {code : List Code} (hcode : Installed code 0 superParts) :
    Reaches code 0 .start 2 (Env.initial.machine [] Machine.start.slots) := by
  simp only [superParts, installed_cons_instr] at hcode
  obtain ⟨hload, hinit, -⟩ := hcode
  exact .trans (.exec hload rfl rfl) (.exec hinit rfl rfl)

/-- The slots of a method that starts hold the receiver and no variable. -/
theorem holds_start {table : SlotTable} (h : table.Sound) :
    Holds table Machine.start.slots Env.initial.vars := by
  refine ⟨rfl, fun name slot hslot => ?_⟩
  exact if_neg (Nat.ne_of_gt (h.positive name slot hslot))

/-- A constructor with the code of statements stops like the interpreter. -/
theorem Host.Executes.runs {H : Host} {x : Run Completion} {n : Nat} {parts : List Fragment}
    (h : H.Executes x n parts)
    (hcode : H.Installed 0 (superParts ++ parts ++ [.instr .ret])) :
    Runs H.code 0 .start (.ofResult (x .initial).1, (x .initial).2.printed) := by
  have hready : H.Ready [] .initial Machine.start.slots :=
    ⟨Env.typed_initial, holds_start H.slots_sound⟩
  simp only [List.append_assoc, installed_append, installed_cons_instr] at hcode
  obtain ⟨hsuper, hparts, hret, -⟩ := hcode
  have hfollows := h.follows hready hparts
  have hstart := Reaches.superCall hsuper
  cases hx : x .initial with
  | mk result env =>
      rw [hx] at hfollows
      cases result with
      | error trap => exact hstart _ hfollows
      | ok completion =>
          cases completion with
          | returned => exact hstart _ hfollows
          | next =>
              obtain ⟨slots, -, -, hreaches⟩ := hfollows
              exact hstart _ (hreaches _ (.of_exec hret rfl rfl))

theorem Instr.Legible.isForCalls {i : Instr} (h : i.Legible) : i.isForCalls = false := by
  cases i with
  | invoke method => cases method <;> first | rfl | cases h
  | _ => rfl

theorem Program.labelCountAll_body_le (program : Program) :
    Stmt.labelCountAll program.body ≤ program.labelCount := by
  simp [labelCount, origins, Origin.labelCount]
  omega

section Host

variable {program : Program} {options : Options} {f f' : Frame} {acts : List Action}
  (e : EntryActions (.ofProgram program options) program.body program.functions f acts f')

/-- The constructor of a program, as code that runs. -/
def EntryActions.host (hlegible : LegibleAll e.constructorParts) : Host where
  setting := .ofProgram program options
  id := e.id
  functions := program.functions.map FunctionDef.name
  code := Fragment.codeAll e.constructorParts
  slots := e.bodyFrame.slots
  slots_sound := e.body_lowered.sound SlotTable.sound_empty
  oracle_eq := rfl
  functions_iff := SymbolTable.isSome_function?_ofProgram program
  without_calls i hi := Instr.Legible.isForCalls (hlegible (.instr i) hi)

theorem EntryActions.legible_constructor (hlegible : LegibleAll e.parts) :
    LegibleAll e.constructorParts := by
  simp [constructorParts, superParts, Instr.Legible, Method.isCallable, hlegible]

theorem EntryActions.installed_constructor (hcount : program.labelCount < UInt32.size) :
    Installed (Fragment.codeAll e.constructorParts) 0 e.constructorParts := by
  have hbody := e.body_lowered.labelled.declared_nodup
    (Nat.le_trans program.labelCountAll_body_le (Nat.le_of_lt hcount))
  refine installed_self ?_
  simpa [constructorParts, superParts] using hbody

end Host

/-- Well-typed programs are executed without illegal operations. -/
theorem Program.IsCallFree.interpret_ne_illegal {program : Program} {id : ScopeId}
    (h : program.IsCallFree id) : program.interpret.1 ≠ .error .illegal := by
  have hsound := WellTyped.execAll_sound (SymbolTable.isSome_function?_ofProgram program) h.typed
    h.free [] .initial Env.typed_initial
  change Sound _ _ _ _ program.interpret at hsound
  intro hillegal
  cases hresult : program.interpret with
  | mk result env =>
      rw [hresult] at hsound hillegal
      cases hillegal
      exact hsound rfl

/-- A program without calls runs as the interpreter executes it, if the names in its body
    can be written on one line. -/
theorem Program.IsCallFree.preservesOutput {program : Program} {options : Options}
    {memory : Memory} {id : ScopeId} (h : program.IsCallFree id)
    (hrun : (generate (.ofProgram program options) program memory).1 = .ok ())
    (hnames : ∀ name ∈ Stmt.identsAll program.body, OneLine (.ofProgram program) id name) :
    program.PreservesOutput options memory := by
  obtain ⟨structActs, entryActs, f₁, f', -, e, hunit⟩ := generate_memory_entry hrun
  obtain rfl : e.id = id := Option.some.inj (e.scope.symm.trans h.scope)
  have hlegible := e.legible_constructor (e.body_lowered.legible rfl rfl h.free hnames)
  have hbody := Host.executesAll_of_lowered (H := e.host hlegible) e.body_lowered rfl
    SlotTable.sound_empty (.refl _) h.typed h.free
  have hruns := hbody.runs (e.installed_constructor h.labels)
  refine ⟨_, _, hunit, e.readConstructor_eq hlegible, hruns.trimmed hlegible ?_ ?_⟩
  · exact List.forall_mem_singleton.mpr trimmedName_entryClass
  · exact Stop.ofResult_ne_illegal h.interpret_ne_illegal

/-- The text of a program without calls means what the program means, if the names in its
    body can be written on one line: the interpreter does no illegal operation, and the
    constructor that is read back stops as the interpreter does, with the same values
    printed in the same order. -/
theorem preserves_output (program : Program) (options : Options) (memory : Memory) (id : ScopeId)
    (h : program.IsCallFree id)
    (hrun : (generate (.ofProgram program options) program memory).1 = .ok ())
    (hnames : ∀ name ∈ Stmt.identsAll program.body, OneLine (.ofProgram program) id name) :
    program.interpret.1 ≠ .error .illegal ∧ program.PreservesOutput options memory :=
  ⟨h.interpret_ne_illegal, h.preservesOutput hrun hnames⟩

/-- Counts from three down to one into a list and displays what the list holds at the end,
    and whether the list has three elements. -/
def countdown : Program where
  body := [.declare "n" .int (some (.int 3)), .declare "xs" (.list .int) none,
    .loop (.ident "n") (.block [.append (.ident "xs") (.ident "n"),
      .assign (.ident "n") (.binary (.arith .sub) (.ident "n") (.int 1))]),
    .cond (.binary (.order .lt) (.ident "n") (.int 1))
      (.display (.index (.ident "xs") (.int 2))) none,
    .display (.binary .equal (.size (.ident "xs")) (.int 3))]

theorem countdown_isCallFree : countdown.IsCallFree ⟨1⟩ := by
  have hn : HasType (.ofProgram countdown) ⟨1⟩ (.ident "n") .int := .ident rfl (by simp)
  have hxs : HasType (.ofProgram countdown) ⟨1⟩ (.ident "xs") (.list .int) := .ident rfl (by simp)
  have hbody : ∀ s ∈ [Stmt.append (.ident "xs") (.ident "n"),
      .assign (.ident "n") (.binary (.arith .sub) (.ident "n") (.int 1))],
      WellTyped (.ofProgram countdown) ⟨1⟩ s := by
    simp only [List.forall_mem_cons]
    exact ⟨.append (.append hxs hn (by simp)), .assign rfl (.arith hn .int), by simp⟩
  refine ⟨rfl, ?_, rfl, by decide⟩
  simp only [countdown, List.forall_mem_cons]
  exact ⟨.declareValue rfl .int, .declare rfl, .loop hn (.block hbody),
    .cond (.order hn .int) (.display (.index hxs .int) (.inl rfl)) (by simp),
    .display (.equal (.size hxs) .int (by simp)) (.inr rfl), by simp⟩

theorem oneLine_countdown :
    ∀ name ∈ Stmt.identsAll countdown.body, OneLine (.ofProgram countdown) ⟨1⟩ name := by
  have hn : OneLine (.ofProgram countdown) ⟨1⟩ "n" := .of_variable rfl rfl rfl
  have hxs : OneLine (.ofProgram countdown) ⟨1⟩ "xs" := .of_variable rfl rfl rfl
  have hidents : Stmt.identsAll countdown.body = ["n", "xs", "n", "n", "n", "xs", "xs"] := rfl
  rw [hidents]
  simp [hn, hxs]

theorem preserves_output_countdown :
    countdown.interpret.2.printed = [.int 1, .bool true] ∧
      countdown.PreservesOutput {} Memory.empty :=
  ⟨rfl, (preserves_output countdown {} Memory.empty ⟨1⟩ countdown_isCallFree
    (generate_memory_ok _ (by decide +kernel)) oneLine_countdown).2⟩

-- ============================================================================
-- Names that make lines
-- ============================================================================

/-- The text of the entry unit of a run that opens no other unit. -/
theorem unit?_eq_writtenBy {setting : Setting} {program : Program} {memory : Memory}
    (hrun : (generate setting program memory).1 = .ok ())
    (hsingle : .openUnit entryClass ∉ (program.actions setting).tail) :
    (generate setting program memory).2.output.sink.unit? entryClass =
      some (writtenBy (program.actions setting)) := by
  obtain ⟨structActs, entryActs, f₁, f', hacts, e, hunit⟩ := generate_memory_entry hrun
  rw [e.acts_eq, ← List.append_assoc] at hacts
  rw [hacts] at hsingle ⊢
  cases hbefore : structActs ++ e.before with
  | nil =>
      rw [hunit, List.nil_append, ← List.singleton_append, writtenBy_append, writtenBy_append]
      simp [writtenBy, Action.written]
  | cons first rest =>
      rw [hbefore] at hsingle
      simp at hsingle

/-- The instructions from the name of a pointer to `f` to that of a second one, with the
    end of a statement, a return and the start of a statement between them. -/
def returningInstrs : List Instr :=
  [.ldcText "f", .invoke .fptrInit, .invoke .listAddElement, .pop, .ret, .aload 1, .dup,
    .new fptrClass, .dup, .aload receiverSlot, .ldcText "f"]

/-- A name that is written as if it were those instructions. -/
def returningName : String :=
  "f\"\ninvokespecial Fptr/<init>(Ljava/lang/Object;Ljava/lang/String;)V\n" ++
    "invokevirtual List/addElement(Ljava/lang/Object;)V\npop\nreturn\naload 1\ndup\nnew Fptr\n" ++
    "dup\naload 0\nldc \"f"

theorem written_returningName :
    writtenBy [.instr (.ldcText returningName)] = writtenBy (returningInstrs.map Action.instr) := by
  decide +kernel

/-- Puts a pointer to the function with that name into a list, and displays a number. -/
def namingProgram : Program where
  body := [.declare "fs" (.list (.fptr [] .void)) none,
    .append (.ident "fs") (.ident returningName), .display (.int 1)]
  functions := [⟨"f", [], .void, []⟩, ⟨returningName, [], .void, []⟩]

/-- Returns before it displays the number. -/
def returningProgram : Program where
  body := [.declare "fs" (.list (.fptr [] .void)) none, .append (.ident "fs") (.ident "f"),
    .ret none, .append (.ident "fs") (.ident "f"), .display (.int 1)]
  functions := [⟨"f", [], .void, []⟩, ⟨returningName, [], .void, []⟩]

theorem namingProgram_isCallFree : namingProgram.IsCallFree ⟨3⟩ := by
  have hscope : (SymbolTable.ofProgram namingProgram).scope ⟨3⟩ =
      .ok ⟨.entry, some "main", [⟨"fs", .list (.fptr [] .void)⟩]⟩ := rfl
  have hfunction : (SymbolTable.ofProgram namingProgram).function? returningName =
      some ⟨returningName, [], .void⟩ := by decide +kernel
  have hfs : HasType (.ofProgram namingProgram) ⟨3⟩ (.ident "fs") (.list (.fptr [] .void)) :=
    .ident rfl (by simp)
  have hname : HasType (.ofProgram namingProgram) ⟨3⟩ (.ident returningName) (.fptr [] .void) := by
    refine .ident ?_ (by simp)
    simp only [SymbolTable.typeOfName, SymbolTable.lookupFunction, hscope, hfunction]
    rfl
  refine ⟨rfl, ?_, rfl, by decide⟩
  simp only [namingProgram, List.forall_mem_cons]
  exact ⟨.declare rfl, .append (.append hfs hname (by simp)), .display .int (.inl rfl), by simp⟩

theorem returningProgram_isCallFree : returningProgram.IsCallFree ⟨3⟩ := by
  have hfs : HasType (.ofProgram returningProgram) ⟨3⟩ (.ident "fs") (.list (.fptr [] .void)) :=
    .ident rfl (by simp)
  have hname : HasType (.ofProgram returningProgram) ⟨3⟩ (.ident "f") (.fptr [] .void) :=
    .ident rfl (by simp)
  have happend := WellTyped.append (HasType.append hfs hname (by simp))
  refine ⟨rfl, ?_, rfl, by decide⟩
  simp only [returningProgram, List.forall_mem_cons]
  exact ⟨.declare rfl, happend, .ret, happend, .display .int (.inl rfl), by simp⟩

theorem oneLine_returningProgram : ∀ name ∈ Stmt.identsAll returningProgram.body,
    OneLine (.ofProgram returningProgram) ⟨3⟩ name := by
  have hfs : OneLine (.ofProgram returningProgram) ⟨3⟩ "fs" := .of_variable rfl rfl rfl
  have hf : OneLine (.ofProgram returningProgram) ⟨3⟩ "f" := .of_function (by decide) rfl
  have hidents : Stmt.identsAll returningProgram.body = ["fs", "f", "fs", "f"] := rfl
  rw [hidents]
  simp [hfs, hf]

theorem eq_ok_of_isOk {ε : Type} {x : Except ε Unit} (h : x.isOk = true) : x = .ok () := by
  cases x with
  | ok u => rfl
  | error e => cases h

theorem generate_namingProgram :
    (generate (.ofProgram namingProgram {}) namingProgram Memory.empty).1 = .ok () :=
  generate_memory_ok _ (eq_ok_of_isOk (by decide +kernel))

theorem generate_returningProgram :
    (generate (.ofProgram returningProgram {}) returningProgram Memory.empty).1 = .ok () :=
  generate_memory_ok _ (eq_ok_of_isOk (by decide +kernel))

/-- Two programs with the same text. The one writes the long name where the other has the
    instructions. -/
theorem written_namingProgram :
    writtenBy (namingProgram.actions (.ofProgram namingProgram {})) =
      writtenBy (returningProgram.actions (.ofProgram returningProgram {})) := by
  have hnaming : namingProgram.actions (.ofProgram namingProgram {}) =
      (namingProgram.actions (.ofProgram namingProgram {})).take 16 ++
        ([.instr (.ldcText returningName)] ++
          (namingProgram.actions (.ofProgram namingProgram {})).drop 17) := by
    decide +kernel
  have hreturning : returningProgram.actions (.ofProgram returningProgram {}) =
      (namingProgram.actions (.ofProgram namingProgram {})).take 16 ++
        (returningInstrs.map Action.instr ++
          (namingProgram.actions (.ofProgram namingProgram {})).drop 17) := by
    decide +kernel
  rw [hnaming, hreturning]
  simp only [writtenBy_append, written_returningName]

/-- A name with line feeds can be mistaken for instructions: what is read back of the
    program that mentions it returns early, and displays nothing. -/
theorem preserves_output_fails :
    namingProgram.IsCallFree ⟨3⟩ ∧
      (generate (.ofProgram namingProgram {}) namingProgram Memory.empty).1 = .ok () ∧
      namingProgram.interpret.2.printed = [.int 1] ∧
      ¬ namingProgram.PreservesOutput {} Memory.empty := by
  have hprinted : namingProgram.interpret.2.printed = [.int 1] := by decide +kernel
  refine ⟨namingProgram_isCallFree, generate_namingProgram, hprinted, ?_⟩
  rintro ⟨text, code, hunit, hread, hruns⟩
  obtain ⟨text', code', hunit', hread', hruns'⟩ :=
    returningProgram_isCallFree.preservesOutput generate_returningProgram oneLine_returningProgram
  -- both texts are the same, so the machine would have to stop in two ways
  rw [unit?_eq_writtenBy generate_namingProgram (by decide +kernel), written_namingProgram] at hunit
  rw [unit?_eq_writtenBy generate_returningProgram (by decide +kernel), hunit] at hunit'
  obtain rfl := Option.some.inj hunit'
  obtain rfl := Option.some.inj (hread.symm.trans hread')
  have hsame := congrArg Prod.snd (hruns.unique hruns')
  rw [hprinted] at hsame
  cases hsame

end JasminGen
