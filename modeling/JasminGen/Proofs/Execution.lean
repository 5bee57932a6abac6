/-
  JasminGen.Proofs.Execution

  The code of statements does on the machine what the interpreter does. A statement
  leaves the slots that were in use before it alone, unless they are those of variables,
  so the counter of a loop is kept by its body.

  Main definitions: `Host.Follows`, `Host.Executes`. Main results:
  `Host.executes_of_lowered`, `Host.executesAll_of_lowered`.
-/

import JasminGen.Proofs.Simulation

namespace JasminGen

/-- A slot that is handed out to a loop is the slot of no name. -/
theorem SlotTable.Sound.next_unnamed {f : Frame} {t : SlotTable} (hf : f.slots.Sound)
    (hext : f.afterSlot.slots.Extends t) (name : String) : t.get? name ≠ some f.slots.next := by
  intro hname
  rcases hext.fresh name _ hname with hold | hle
  · exact Nat.lt_irrefl _ (hf.used name _ hold)
  · exact Nat.not_succ_le_self _ hle

/-- A counter that is not positive counts nothing. -/
theorem counter_done {k : Int32} (h : k.toInt.toNat = 0) : ¬ 0 < k := by
  intro hpos
  rw [Int32.lt_iff_toInt_lt, Int32.toInt_zero] at hpos
  omega

theorem counter_next {k : Int32} {r : Nat} (h : k.toInt.toNat = r + 1) :
    0 < k ∧ (k - 1).toInt.toNat = r := by
  have hlt := k.toInt_lt
  have hone : (1 : Int32).toInt = 1 := rfl
  constructor
  · rw [Int32.lt_iff_toInt_lt, Int32.toInt_zero]
    omega
  · rw [Int32.toInt_sub, hone, Int.bmod_eq_of_le (by omega) (by omega)]
    omega

section Holds

variable {table : SlotTable} {slots : Nat → Option Word} {vars : String → Option Value}

/-- A variable is assigned. -/
theorem Holds.assign {name : String} {slot : Nat} (h : Holds table slots vars)
    (htable : table.Sound) (hslot : table.get? name = some slot) (v : Value) :
    Holds table (fun s => if s = slot then some v.word else slots s)
      (fun x => if x = name then some v else vars x) := by
  have hpos := htable.positive name slot hslot
  refine ⟨?_, ?_⟩
  · rw [if_neg (Nat.ne_of_lt hpos)]
    exact h.receiver
  · intro other slot' hother
    by_cases hname : other = name
    · subst hname
      rw [if_pos rfl, if_pos (Option.some.inj (hother.symm.trans hslot))]
      rfl
    · rw [if_neg hname, if_neg]
      · exact h.named other slot' hother
      · rintro rfl
        exact hname (htable.injective other name slot' hother hslot)

/-- A slot that is that of no variable changes. -/
theorem Holds.count {slot : Nat} (h : Holds table slots vars) (hpos : receiverSlot < slot)
    (hunnamed : ∀ name, table.get? name ≠ some slot) (w : Word) :
    Holds table (fun s => if s = slot then some w else slots s) vars := by
  refine ⟨?_, ?_⟩
  · rw [if_neg (Nat.ne_of_lt hpos)]
    exact h.receiver
  · intro other slot' hother
    rw [if_neg]
    · exact h.named other slot' hother
    · rintro rfl
      exact hunnamed other hother

end Holds

/-- The code of a zero value pushes it. -/
theorem ZeroCode.simulates {S : Setting} {id : ScopeId} {ty : Ty} {is : List Instr}
    {code : List Code} {place : Nat} {env : Env} {stack : List Word} {slots : Nat → Option Word}
    (h : ZeroCode S id ty is) (hplain : ty.isPlain = true)
    (hcode : Installed code place (is.map Fragment.instr)) :
    Simulates code place (env.machine stack slots)
      (fun v env' => (place + codeSize (is.map Fragment.instr), env'.machine (v.word :: stack) slots))
      (ty.zero env) := by
  cases h with
  | int | bool =>
      simp only [List.map_cons, installed_cons_instr] at hcode
      obtain ⟨hzero, hbox, -⟩ := hcode
      exact .exec hzero rfl rfl (.exec hbox rfl rfl (.pure rfl))
  | list =>
      simp only [List.map_cons, installed_cons_instr] at hcode
      obtain ⟨hnew, hdup, hinit, -⟩ := hcode
      have hmade : (Instr.invoke .listInit).exec ⟨.ref env.heap.length :: .ref env.heap.length ::
          stack, slots, env.heap ++ [.raw listClass], env.printed⟩ =
          .ok (Env.machine { env with store := env.store ++ [.list []] }
            (.ref env.heap.length :: stack) slots) := by
        rw [Env.machine, Env.heap_push]
        simp [Instr.exec.eq_def, Method.exec.eq_def, Machine.construct, Machine.update, Object.cell]
      refine .exec hnew rfl rfl (.exec hdup rfl rfl (.exec hinit rfl hmade (.pure ?_)))
      rw [env.heap_length]
      rfl
  | struct => cases hplain
  | fptr => cases hplain

/-- The primitive value in a wrapper. -/
def Value.primitive : Value → Int32
  | .int n => n
  | .bool b => if b then 1 else 0
  | .ref _ => 0

theorem Value.Typed.exec_unbox {types : List Ty} {v : Value} {ty : Ty} {unboxer : Method}
    (hv : v.Typed types ty) (hunboxer : ty.unboxer? = some unboxer) (env : Env)
    (stack : List Word) (slots : Nat → Option Word) :
    (Instr.invoke unboxer).exec (env.machine (v.word :: stack) slots) =
      .ok (env.machine (.int v.primitive :: stack) slots) := by
  cases hv <;> cases hunboxer <;> rfl

/-- A value is printed as the interpreter displays it. -/
theorem Value.Typed.exec_print {types : List Ty} {v : Value} {ty : Ty} {printer : Method}
    (hv : v.Typed types ty) (hprinter : ty.printer? = some printer) (env : Env)
    (slots : Nat → Option Word) :
    ∃ p, Run.display v env = (.ok (), { env with printed := env.printed ++ [p] }) ∧
      (Instr.invoke printer).exec (env.machine [.int v.primitive, .stream] slots) =
        .ok (Env.machine { env with printed := env.printed ++ [p] } [] slots) := by
  cases hv with
  | @int n =>
      cases hprinter
      exact ⟨.int n, rfl, rfl⟩
  | @bool b =>
      cases hprinter
      refine ⟨.bool b, rfl, ?_⟩
      cases b <;> rfl
  | list => cases hprinter
  | pointer => cases hprinter

theorem Ty.zero_keepsVars : ∀ ty : Ty, ty.zero.KeepsVars
  | .int => .pure _
  | .bool => .pure _
  | .list _ => fun _ => rfl
  | .void => .throw _
  | .struct _ => .throw _
  | .fptr _ _ => .throw _

namespace Host

-- ============================================================================
-- Runs of statements
-- ============================================================================

/-- A slot below `n` that is that of no variable. -/
def Spare (H : Host) (n slot : Nat) : Prop :=
  slot < n ∧ ∀ name, H.slots.get? name ≠ some slot

/-- Slots that agree where they are spare. -/
def Keeps (H : Host) (n : Nat) (slots slots' : Nat → Option Word) : Prop :=
  ∀ slot, H.Spare n slot → slots' slot = slots slot

/-- From a place and a state, the machine does what led the interpreter to a result: it
    comes to the place `stop` with an empty stack and the values of all variables in
    their slots, and has kept the spare slots, or it stops in the same way. -/
def Follows (H : Host) (place : Nat) (m : Machine) (stop n : Nat) (slots : Nat → Option Word) :
    Except Trap Completion × Env → Prop
  | (.ok .next, env) => ∃ slots', Holds H.slots slots' env.vars ∧ H.Keeps n slots slots' ∧
      Reaches H.code place m stop (env.machine [] slots')
  | (.ok .returned, env) => Runs H.code place m (.returned, env.printed)
  | (.error trap, env) => Runs H.code place m (.trapped trap, env.printed)

/-- The code of a statement does what the interpreter does. -/
structure Executes (H : Host) (x : Run Completion) (n : Nat) (parts : List Fragment) : Prop where
  sound : SoundRun H.setting.symbols H.id x
  follows : ∀ {types : List Ty} {env : Env} {place : Nat} {slots : Nat → Option Word},
    H.Ready types env slots → H.Installed place parts →
    H.Follows place (env.machine [] slots) (place + codeSize parts) n slots (x env)

section Follows

variable {H : Host} {place place' stop stop' n n' : Nat} {m m' : Machine}
  {slots slots' slots'' : Nat → Option Word} {env : Env} {r : Except Trap Completion × Env}

theorem Keeps.mono (h : H.Keeps n slots slots') (hle : n' ≤ n) : H.Keeps n' slots slots' :=
  fun slot hs => h slot ⟨Nat.lt_of_lt_of_le hs.1 hle, hs.2⟩

theorem Keeps.trans (h : H.Keeps n slots slots') (h' : H.Keeps n slots' slots'') :
    H.Keeps n slots slots'' :=
  fun slot hs => (h' slot hs).trans (h slot hs)

/-- What is done before and after, and fewer slots that are kept. -/
theorem Follows.wrap (hr : H.Follows place' m' stop n slots' r)
    (hfirst : Reaches H.code place m place' m')
    (hlast : ∀ m, Reaches H.code stop m stop' m)
    (hle : n' ≤ n) (hkept : H.Keeps n' slots slots') :
    H.Follows place m stop' n' slots r := by
  obtain ⟨result, env'⟩ := r
  cases result with
  | error trap => exact hfirst _ hr
  | ok completion =>
      cases completion with
      | returned => exact hfirst _ hr
      | next =>
          obtain ⟨slots', hholds, hkeeps, hreaches⟩ := hr
          exact ⟨slots', hholds, hkept.trans (hkeeps.mono hle),
            hfirst.trans (hreaches.trans (hlast _))⟩

theorem Follows.after (h : Reaches H.code place m place' m')
    (hr : H.Follows place' m' stop n slots r) : H.Follows place m stop n slots r :=
  hr.wrap h (fun _ => .refl) (Nat.le_refl _) fun _ _ => rfl

theorem Follows.mono (h : H.Follows place m stop n slots r) (hle : n' ≤ n) :
    H.Follows place m stop n' slots r :=
  h.wrap .refl (fun _ => .refl) hle fun _ _ => rfl

theorem Follows.followed (h : H.Follows place m stop n slots r)
    (hlast : ∀ m, Reaches H.code stop m stop' m) : H.Follows place m stop' n slots r :=
  h.wrap .refl hlast (Nat.le_refl _) fun _ _ => rfl

/-- What the interpreter does after a statement is done from the end of its code. -/
theorem Follows.andThen {x y : Run Completion} (hx : H.Follows place m stop n slots (x env))
    (hle : n' ≤ n)
    (hy : ∀ env' slots', x env = (.ok .next, env') → Holds H.slots slots' env'.vars →
      H.Keeps n slots slots' → H.Follows stop (env'.machine [] slots') stop' n' slots' (y env')) :
    H.Follows place m stop' n' slots (x.andThen y env) := by
  cases hr : x env with
  | mk result env' =>
      rw [hr] at hx
      cases result with
      | error trap =>
          rw [Run.andThen, Attempt.bind_error hr]
          exact hx
      | ok completion =>
          rw [Run.andThen, Attempt.bind_ok hr]
          cases completion with
          | returned => exact hx
          | next =>
              obtain ⟨slots', hholds, hkept, hreaches⟩ := hx
              exact (hy env' slots' hr hholds hkept).wrap hreaches (fun _ => .refl)
                (Nat.le_refl _) (hkept.mono hle)

/-- What the interpreter does after a step is done from where the step led to. -/
theorem Follows.of_simulates {α : Type} {next : α → Env → Nat × Machine} {x : Run α}
    {k : α → Run Completion} (hx : Simulates H.code place m next (x env))
    (hk : ∀ a env', x env = (.ok a, env') →
      H.Follows (next a env').1 (next a env').2 stop n slots (k a env')) :
    H.Follows place m stop n slots ((x >>= k) env) := by
  rcases Attempt.bind_cases x k env with ⟨trap, env', hr, hbind⟩ | ⟨a, env', hr, hbind⟩
  · rw [hr] at hx
    rw [hbind]
    exact hx
  · rw [hr] at hx
    rw [hbind]
    exact .after hx (hk a env' hr)

theorem Computes.follows {e : Expr} {ty : Ty} {parts : List Fragment} {types : List Ty}
    {stack : List Word} {k : Value → Run Completion} (h : H.Computes e ty parts)
    (hready : H.Ready types env slots) (hcode : H.Installed place parts)
    (hk : ∀ types' v env', H.Ready types' env' slots → v.Typed types' ty →
      H.Follows (place + codeSize parts) (env'.machine (v.word :: stack) slots) stop n slots
        (k v env')) :
    H.Follows place (env.machine stack slots) stop n slots ((e.eval H.functions >>= k) env) := by
  refine .of_simulates (h.simulates hready hcode) fun v env' heval => ?_
  obtain ⟨types', -, hready', hv⟩ := h.ready_of_eval hready heval
  exact hk types' v env' hready' hv

theorem Executes.typed_after {x : Run Completion} {parts : List Fragment} {types : List Ty}
    {completion : Completion} {env' : Env} (h : H.Executes x n parts)
    (hready : H.Ready types env slots) (hx : x env = (.ok completion, env')) :
    ∃ types', env'.Typed H.setting.symbols H.id types' := by
  have hsound := h.sound types env hready.typed
  rw [hx] at hsound
  obtain ⟨types', -, henv', -⟩ := hsound
  exact ⟨types', henv'⟩

/-- Nothing is left to do. -/
theorem Follows.done (h : Holds H.slots slots env.vars) :
    H.Follows place (env.machine [] slots) place n slots ((pure .next : Run Completion) env) :=
  ⟨slots, h, fun _ _ => rfl, .refl⟩

/-- A value is stored in the slot of a variable. -/
theorem Follows.assign {name : String} {slot : Nat} {v : Value}
    (hholds : Holds H.slots slots env.vars) (hslot : H.slots.get? name = some slot)
    (hi : H.code[place]? = some (.instr (.astore slot))) :
    H.Follows place (env.machine [v.word] slots) (place + 1) n slots
      ((do Run.assign name v; pure .next : Run Completion) env) := by
  refine ⟨_, hholds.assign H.slots_sound hslot v, ?_, .exec hi rfl ?_⟩
  · intro other hother
    refine if_neg ?_
    rintro rfl
    exact hother.2 name hslot
  · simp only [Instr.exec.eq_def, Env.machine, v.word_not_isPrimitive]
    rfl

end Follows

-- ============================================================================
-- Loops
-- ============================================================================

/-- The code of a loop from the start of its body on. -/
def loopParts (body : Stmt) (parts : List Fragment) (counter : Nat) (start check : Label) :
    List Fragment :=
  [.label start, .stmt body parts, .instr (.decrement counter), .label check,
    .instr (.iload counter), .instr (.branch .ifgt start)]

/-- A loop does its body as often as the counter says. The counter is kept by the body,
    since it is spare there. -/
theorem Executes.iterate {H : Host} {body : Stmt} {x : Run Completion} {n n' counter place : Nat}
    {parts : List Fragment} {start check : Label} (hbody : H.Executes x n' parts)
    (hspare : H.Spare n' counter) (hpos : receiverSlot < counter) (hn : n ≤ counter)
    (hcode : H.Installed place (loopParts body parts counter start check)) (r : Nat) :
    ∀ {types : List Ty} {env : Env} {slots : Nat → Option Word} {k : Int32},
      H.Ready types env slots → slots counter = some (.int k) → k.toInt.toNat = r →
      H.Follows (place + 1 + codeSize parts + 1) (env.machine [] slots)
        (place + codeSize (loopParts body parts counter start check)) n slots
        (Run.iterate x r env) := by
  have hend : place + codeSize (loopParts body parts counter start check) =
      place + 1 + codeSize parts + 1 + 1 + 1 + 1 := by
    simp [loopParts]
    omega
  simp only [loopParts, installed_cons_label, installed_cons_stmt, installed_cons_instr] at hcode
  obtain ⟨hstart, hstartPlace, hcbody, hdecrement, hcheck, -, hload, hbranch, -⟩ := hcode
  rw [hend]
  have hloaded : ∀ {env : Env} {slots : Nat → Option Word} {k : Int32},
      slots counter = some (.int k) →
      (Instr.iload counter).exec (env.machine [] slots) = .ok (env.machine [.int k] slots) := by
    intro env slots k hk
    simp only [Instr.exec.eq_def, Env.machine, hk]
    rfl
  induction r with
  | zero =>
      intro types env slots k hready hk hzero
      refine .after (.label hcheck) (.after (.exec hload rfl (hloaded hk)) ?_)
      have htest : Branch.ifgt.test [.int k] = some (false, []) := by
        simp [Branch.test, counter_done hzero]
      exact .after (.notTaken hbranch htest) (.done hready.holds)
  | succ r ih =>
      intro types env slots k hready hk hsucc
      obtain ⟨hk_pos, hk_next⟩ := counter_next hsucc
      refine .after (.label hcheck) (.after (.exec hload rfl (hloaded hk)) ?_)
      have htest : Branch.ifgt.test [.int k] = some (true, []) := by
        simp [Branch.test, hk_pos]
      refine .after (.taken hbranch htest hstartPlace) (.after (.label hstart) ?_)
      refine .andThen (hbody.follows hready hcbody) (Nat.le_of_lt (Nat.lt_of_le_of_lt hn hspare.1)) ?_
      intro env' slots' hx hholds hkept
      obtain ⟨types', henv'⟩ := hbody.typed_after hready hx
      have hk' : slots' counter = some (.int k) := (hkept counter hspare).trans hk
      have hholds' := hholds.count hpos hspare.2 (.int (k - 1))
      have hexec : (Instr.decrement counter).exec (env'.machine [] slots') =
          .ok (env'.machine [] fun s => if s = counter then some (.int (k - 1)) else slots' s) := by
        simp only [Instr.exec.eq_def, Env.machine, hk']
        rfl
      refine (ih ⟨henv', hholds'⟩ (if_pos rfl) hk_next).wrap (.exec hdecrement rfl hexec)
        (fun _ => .refl) (Nat.le_refl _) ?_
      exact fun slot hs => if_neg (Nat.ne_of_lt (Nat.lt_of_lt_of_le hs.1 hn))

/-- A loop stores its count in the counter, and starts with the check of the counter. -/
theorem Computes.loop {H : Host} {count : Expr} {body : Stmt} {x : Run Completion}
    {n n' counter place : Nat} {pc pb : List Fragment} {start check : Label} {types : List Ty}
    {env : Env} {slots : Nat → Option Word} (hcount : H.Computes count .int pc)
    (hbody : H.Executes x n' pb) (hspare : H.Spare n' counter) (hpos : receiverSlot < counter)
    (hn : n ≤ counter) (hready : H.Ready types env slots)
    (hcode : H.Installed place (.expr count pc :: .instr (.invoke .integerIntValue) ::
      .instr (.istore counter) :: .instr (.goto check) ::
      loopParts body pb counter start check)) :
    H.Follows place (env.machine [] slots)
      (place + codeSize (.expr count pc :: .instr (.invoke .integerIntValue) ::
        .instr (.istore counter) :: .instr (.goto check) ::
        loopParts body pb counter start check)) n slots
      ((do let k ← Run.asInt (← count.eval H.functions); Run.iterate x k.toInt.toNat) env) := by
  have hend : place + codeSize (.expr count pc :: .instr (.invoke .integerIntValue) ::
      .instr (.istore counter) :: .instr (.goto check) ::
      loopParts body pb counter start check) =
      place + codeSize pc + 1 + 1 + 1 + codeSize (loopParts body pb counter start check) := by
    simp
    omega
  simp only [installed_cons_expr, installed_cons_instr] at hcode
  obtain ⟨hcc, hunbox, hstore, hgoto, hloop⟩ := hcode
  have hcheck : labelPlace H.code check =
      some (place + codeSize pc + 1 + 1 + 1 + 1 + codeSize pb + 1) := by
    simp only [loopParts, installed_cons_label, installed_cons_stmt, installed_cons_instr] at hloop
    exact hloop.2.2.2.2.2.1
  rw [hend]
  refine hcount.follows hready hcc fun types' v env' hready' hv => ?_
  obtain ⟨k, rfl⟩ := hv.int_inv
  refine .after (.exec hunbox rfl rfl) (.after (.exec hstore rfl rfl) ?_)
  refine .after (.goto hgoto hcheck) ?_
  have hholds := hready'.holds.count hpos hspare.2 (.int k)
  refine (hbody.iterate hspare hpos hn hloop _ ⟨hready'.typed, hholds⟩ (if_pos rfl) rfl).wrap .refl
    (fun _ => .refl) (Nat.le_refl _) ?_
  exact fun slot hs => if_neg (Nat.ne_of_lt (Nat.lt_of_lt_of_le hs.1 hn))

-- ============================================================================
-- Statements
-- ============================================================================

/-- The code of a conditional. -/
def condParts (test : Expr) (positive : Stmt) (pt pp pn : List Fragment) (otherwise after : Label) :
    List Fragment :=
  [.expr test pt, .instr (.invoke .booleanBooleanValue), .instr (.branch .ifeq otherwise),
    .stmt positive pp, .instr (.goto after), .label otherwise, .instr .nop] ++ pn ++
    [.label after, .instr .nop]

theorem Computes.cond {H : Host} {test : Expr} {positive : Stmt} {pt pp pn : List Fragment}
    {x y : Run Completion} {n n₁ n₂ place : Nat} {otherwise after : Label} {types : List Ty}
    {env : Env} {slots : Nat → Option Word} (htest : H.Computes test .bool pt)
    (hx : H.Executes x n₁ pp) (hy : H.Executes y n₂ pn) (hn₁ : n ≤ n₁) (hn₂ : n ≤ n₂)
    (hready : H.Ready types env slots)
    (hcode : H.Installed place (condParts test positive pt pp pn otherwise after)) :
    H.Follows place (env.machine [] slots)
      (place + codeSize (condParts test positive pt pp pn otherwise after)) n slots
      ((do if ← Run.asBool (← test.eval H.functions) then x else y) env) := by
  have hend : place + codeSize (condParts test positive pt pp pn otherwise after) =
      place + codeSize pt + 1 + 1 + codeSize pp + 1 + 1 + 1 + codeSize pn + 1 + 1 := by
    simp [condParts]
    omega
  simp only [condParts, List.cons_append, List.nil_append, installed_cons_expr,
    installed_cons_label, installed_cons_stmt, installed_cons_instr, installed_append] at hcode
  obtain ⟨hct, hunbox, hbranch, hcp, hgoto, hlother, hotherPlace, hnop, hcn, hlafter, hafterPlace,
    hnop', -⟩ := hcode
  rw [hend]
  refine htest.follows hready hct fun types' v env' hready' hv => ?_
  obtain ⟨b, rfl⟩ := hv.bool_inv
  have hlast : ∀ m : Machine, Reaches H.code
      (place + codeSize pt + 1 + 1 + codeSize pp + 1 + 1 + 1 + codeSize pn) m
      (place + codeSize pt + 1 + 1 + codeSize pp + 1 + 1 + 1 + codeSize pn + 1 + 1) m :=
    fun m => .trans (.label hlafter) (.exec hnop' rfl rfl)
  refine .after (.exec hunbox rfl rfl) ?_
  cases b with
  | true =>
      have hgone := (hx.follows hready' hcp).mono hn₁
      exact .after (.notTaken hbranch rfl)
        (hgone.followed fun m => .trans (.goto hgoto hafterPlace) (hlast m))
  | false =>
      refine .after (.taken hbranch rfl hotherPlace) ?_
      refine .after (.trans (.label hlother) (.exec hnop rfl rfl)) ?_
      exact ((hy.follows hready' hcn).mono hn₂).followed hlast

theorem Executes.wrapped {H : Host} {x : Run Completion} {n : Nat} {parts : List Fragment}
    (h : H.Executes x n parts) (s : Stmt) : H.Executes x n [.stmt s parts] := by
  refine ⟨h.sound, fun hready hcode => ?_⟩
  rw [codeSize_cons_stmt, codeSize_nil, Nat.add_zero]
  exact h.follows hready (installed_cons_stmt.mp hcode).1

section Value

variable {H : Host} {e : Expr} {ty : Ty} {parts : List Fragment} {types : List Ty} {env : Env}
  {place n : Nat} {slots : Nat → Option Word}

/-- A variable gets the value of an expression. -/
theorem Computes.assigned {name : String} {slot : Nat} (h : H.Computes e ty parts)
    (hslot : H.slots.get? name = some slot) (hready : H.Ready types env slots)
    (hcode : H.Installed place [.expr e parts, .instr (.astore slot)]) :
    H.Follows place (env.machine [] slots)
      (place + codeSize [.expr e parts, .instr (.astore slot)]) n slots
      ((do Run.assign name (← e.eval H.functions); pure .next : Run Completion) env) := by
  have hend : place + codeSize [.expr e parts, .instr (.astore slot)] =
      place + codeSize parts + 1 := by
    simp
    omega
  simp only [installed_cons_expr, installed_cons_instr] at hcode
  obtain ⟨hce, hstore, -⟩ := hcode
  rw [hend]
  exact h.follows hready hce fun types' v env' hready' _ => .assign hready'.holds hslot hstore

/-- The value of an expression is dropped. -/
theorem Computes.dropped (h : H.Computes e ty parts) (hready : H.Ready types env slots)
    (hcode : H.Installed place [.expr e parts, .instr .pop]) :
    H.Follows place (env.machine [] slots) (place + codeSize [.expr e parts, .instr .pop]) n slots
      ((do let _ ← e.eval H.functions; pure .next : Run Completion) env) := by
  have hend : place + codeSize [.expr e parts, .instr .pop] = place + codeSize parts + 1 := by
    simp
    omega
  simp only [installed_cons_expr, installed_cons_instr] at hcode
  obtain ⟨hce, hpop, -⟩ := hcode
  rw [hend]
  exact h.follows hready hce fun types' v env' hready' _ =>
    .after (.exec hpop rfl rfl) (.done hready'.holds)

/-- The value of an expression is printed. -/
theorem Computes.displayed {unboxer printer : Method} (h : H.Computes e ty parts)
    (hunboxer : ty.unboxer? = some unboxer) (hprinter : ty.printer? = some printer)
    (hready : H.Ready types env slots)
    (hcode : H.Installed place [.instr .getSystemOut, .expr e parts, .instr (.invoke unboxer),
      .instr (.invoke printer)]) :
    H.Follows place (env.machine [] slots)
      (place + codeSize [.instr .getSystemOut, .expr e parts, .instr (.invoke unboxer),
        .instr (.invoke printer)]) n slots
      ((do Run.display (← e.eval H.functions); pure .next : Run Completion) env) := by
  have hend : place + codeSize [.instr .getSystemOut, .expr e parts, .instr (.invoke unboxer),
      .instr (.invoke printer)] = place + 1 + codeSize parts + 1 + 1 := by
    simp
    omega
  simp only [installed_cons_expr, installed_cons_instr] at hcode
  obtain ⟨hstream, hce, hunbox, hprint, -⟩ := hcode
  rw [hend]
  refine .after (.exec hstream rfl rfl) ?_
  refine h.follows hready hce fun types' v env' hready' hv => ?_
  refine .after (.exec hunbox rfl (hv.exec_unbox hunboxer _ _ _)) ?_
  obtain ⟨shown, hdisplay, hexec⟩ := hv.exec_print hprinter env' slots
  rw [Attempt.bind_ok hdisplay]
  exact .after (.exec hprint rfl hexec) (.done hready'.holds)

/-- A variable gets the zero value of a type. -/
theorem follows_zero {name : String} {is : List Instr} {slot : Nat} {id : ScopeId}
    (hzero : ZeroCode H.setting id ty is) (hplain : ty.isPlain = true)
    (hslot : H.slots.get? name = some slot) (hready : H.Ready types env slots)
    (hcode : H.Installed place (is.map Fragment.instr ++ [.instr (.astore slot)])) :
    H.Follows place (env.machine [] slots)
      (place + codeSize (is.map Fragment.instr ++ [.instr (.astore slot)])) n slots
      ((do Run.assign name (← ty.zero); pure .next : Run Completion) env) := by
  simp only [installed_append, installed_cons_instr] at hcode
  obtain ⟨hczero, hstore, -⟩ := hcode
  rw [codeSize_append, codeSize_cons_instr, codeSize_nil, ← Nat.add_assoc]
  refine .of_simulates (hzero.simulates hplain hczero) fun v env' hv => ?_
  have hvars := ty.zero_keepsVars env
  rw [hv] at hvars
  exact .assign (hvars ▸ hready.holds) hslot hstore

end Value

mutual

/-- The code of well-typed statements without calls does what the interpreter does. -/
theorem executes_of_lowered {H : Host} : ∀ {s : Stmt} {f f' : Frame} {parts : List Fragment},
    StmtLowered H.setting (.one s) f parts f' → f.activeScope = H.id → f.slots.Sound →
    f'.slots.Extends H.slots → WellTyped H.setting.symbols H.id s → s.callFree = true →
    H.Executes (s.exec H.functions) f.slots.next parts
  | .block body, f, f', parts, h, hid, hf, hext, ht, hfree => by
      cases h with
      | block hbody =>
          cases ht with
          | block hs => exact executesAll_of_lowered hbody hid hf hext hs hfree
  | .declare name ty none, f, f', parts, h, hid, hf, hext, ht, hfree => by
      refine ⟨ht.exec_sound H.functions_iff hfree, fun hready hcode => ?_⟩
      cases h with
      | declareZero hzero hslot =>
          exact follows_zero hzero hfree (hext.kept _ _ hslot.get?) hready hcode
  | .declare name ty (some e), f, f', parts, h, hid, hf, hext, ht, hfree => by
      refine ⟨ht.exec_sound H.functions_iff hfree, fun hready hcode => ?_⟩
      obtain ⟨_, hfe⟩ := Bool.and_eq_true_iff.mp hfree
      cases ht with
      | declareValue hname hte =>
          cases h with
          | declare he hslot =>
              have hvalue := computes_of_lowered he hid (hslot.extends.trans hext) hte hfe
              exact hvalue.assigned (hext.kept _ _ hslot.get?) hready hcode
  | .assign (.ident name) e, f, f', parts, h, hid, hf, hext, ht, hfree => by
      refine ⟨ht.exec_sound H.functions_iff hfree, fun hready hcode => ?_⟩
      cases ht with
      | assign hname hte =>
          cases h with
          | assign he hslot =>
              have hvalue := computes_of_lowered he hid (hslot.extends.trans hext) hte hfree
              exact hvalue.assigned (hext.kept _ _ hslot.get?) hready hcode
  | .cond test positive none, f, f', parts, h, hid, hf, hext, ht, hfree => by
      refine ⟨ht.exec_sound H.functions_iff hfree, fun hready hcode => ?_⟩
      obtain ⟨hft, hfp⟩ := Bool.and_eq_true_iff.mp hfree
      cases ht with
      | cond htest hp hn =>
          cases h with
          | cond hlt hlp hln =>
              cases hln with
              | nil =>
                  have hvalue := computes_of_lowered hlt hid (hlp.extends.trans hext) htest hft
                  have hx := executes_of_lowered hlp (hlt.activeScope.trans hid) (hlt.sound hf)
                    hext hp hfp
                  have hy : H.Executes (pure .next) f.slots.next [] :=
                    ⟨fun _ _ henv => .pure henv trivial, fun hready' _ => .done hready'.holds⟩
                  exact hvalue.cond hx hy hlt.extends.next_le (Nat.le_refl _) hready hcode
  | .cond test positive (some negative), f, f', parts, h, hid, hf, hext, ht, hfree => by
      refine ⟨ht.exec_sound H.functions_iff hfree, fun hready hcode => ?_⟩
      obtain ⟨hftp, hfn⟩ := Bool.and_eq_true_iff.mp hfree
      obtain ⟨hft, hfp⟩ := Bool.and_eq_true_iff.mp hftp
      cases ht with
      | cond htest hp hn =>
          cases h with
          | cond hlt hlp hln =>
              cases hln with
              | cons hls hnil =>
                  cases hnil with
                  | nil =>
                      have hvalue := computes_of_lowered hlt hid
                        (hlp.extends.trans (hls.extends.trans hext)) htest hft
                      have hx := executes_of_lowered hlp (hlt.activeScope.trans hid) (hlt.sound hf)
                        (hls.extends.trans hext) hp hfp
                      have hy := executes_of_lowered hls
                        (hlp.activeScope.trans (hlt.activeScope.trans hid))
                        (hlp.sound (hlt.sound hf)) hext (hn negative rfl) hfn
                      exact hvalue.cond hx (hy.wrapped negative) hlt.extends.next_le
                        (Nat.le_trans hlt.extends.next_le hlp.extends.next_le) hready hcode
  | .loop count body, f, f', parts, h, hid, hf, hext, ht, hfree => by
      refine ⟨ht.exec_sound H.functions_iff hfree, fun hready hcode => ?_⟩
      obtain ⟨hfc, hfb⟩ := Bool.and_eq_true_iff.mp hfree
      cases ht with
      | loop hcount hbody =>
          cases h with
          | @loop _ f₁ _ _ _ pc pb _ hlc hlb =>
              have hext₁ := hlb.extends.trans hext
              have hn := hlc.extends.next_le
              have hvalue := computes_of_lowered hlc hid hext₁ hcount hfc
              have hx := executes_of_lowered hlb (hlc.activeScope.trans hid)
                (hlc.sound (Frame.sound_afterSlot hf)) hext hbody hfb
              have hunnamed := hf.next_unnamed (hlc.extends.trans hext₁)
              have hspare : H.Spare f₁.slots.next f.slots.next := ⟨hn, hunnamed⟩
              exact hvalue.loop hx hspare hf.next_positive (Nat.le_refl _) hready hcode
  | .ret none, f, f', parts, h, hid, hf, hext, ht, hfree => by
      refine ⟨ht.exec_sound H.functions_iff hfree, fun hready hcode => ?_⟩
      cases h with
      | ret => exact .of_exec (installed_cons_instr.mp hcode).1 rfl rfl
  | .display e, f, f', parts, h, hid, hf, hext, ht, hfree => by
      refine ⟨ht.exec_sound H.functions_iff hfree, fun hready hcode => ?_⟩
      cases ht with
      | display hte hprinted =>
          cases h with
          | @display _ _ _ p found unboxer printer hfound hunboxer hprinter he =>
              have hne := Ty.ne_void_of_unboxer? hunboxer
              obtain rfl := hte.eq_of_typeOf (H.oracle_eq ▸ hid ▸ hfound) hne
              have hvalue := computes_of_lowered he hid hext hte hfree
              exact hvalue.displayed hunboxer hprinter hready hcode
  | .append l r, f, f', parts, h, hid, hf, hext, ht, hfree => by
      refine ⟨ht.exec_sound H.functions_iff hfree, fun hready hcode => ?_⟩
      cases ht with
      | append hte =>
          cases h with
          | append he => exact (computes_of_lowered he hid hext hte hfree).dropped hready hcode
  | .size e, f, f', parts, h, hid, hf, hext, ht, hfree => by
      refine ⟨ht.exec_sound H.functions_iff hfree, fun hready hcode => ?_⟩
      cases ht with
      | size hte =>
          cases h with
          | size he => exact (computes_of_lowered he hid hext hte hfree).dropped hready hcode

/-- The same of statements in a row. -/
theorem executesAll_of_lowered {H : Host} : ∀ {ss : List Stmt} {f f' : Frame}
    {parts : List Fragment}, StmtLowered H.setting (.many ss) f parts f' → f.activeScope = H.id →
    f.slots.Sound → f'.slots.Extends H.slots →
    (∀ s ∈ ss, WellTyped H.setting.symbols H.id s) → Stmt.allCallFree ss = true →
    H.Executes (Stmt.execAll H.functions ss) f.slots.next parts
  | [], f, f', parts, h, hid, hf, hext, ht, hfree => by
      refine ⟨WellTyped.execAll_sound H.functions_iff ht hfree, fun hready _ => ?_⟩
      cases h with
      | nil => exact .done hready.holds
  | s :: rest, f, f', parts, h, hid, hf, hext, ht, hfree => by
      refine ⟨WellTyped.execAll_sound H.functions_iff ht hfree, fun hready hcode => ?_⟩
      obtain ⟨hfs, hfrest⟩ := Bool.and_eq_true_iff.mp hfree
      cases h with
      | cons hs hrest =>
          have hfirst := executes_of_lowered hs hid hf (hrest.extends.trans hext)
            (ht s List.mem_cons_self) hfs
          have hothers := executesAll_of_lowered hrest (hs.activeScope.trans hid) (hs.sound hf) hext
            (fun x hx => ht x (List.mem_cons_of_mem _ hx)) hfrest
          obtain ⟨hcs, hcrest⟩ := installed_cons_stmt.mp hcode
          rw [codeSize_cons_stmt, ← Nat.add_assoc, Stmt.execAll]
          refine (hfirst.follows hready hcs).andThen (Nat.le_refl _) ?_
          intro env' slots' hx hholds _
          obtain ⟨types', henv'⟩ := hfirst.typed_after hready hx
          exact (hothers.follows ⟨henv', hholds⟩ hcrest).mono hs.extends.next_le

end

end Host

end JasminGen
