/-
  JasminGen.Proofs.Calls.Invocations

  Calls of functions, anywhere in the code of a function and for any meaning of calling
  one. The target is evaluated, then the arguments from left to right, and then the
  function is called once, with one word for each argument: its value, or a deep copy if
  the symbol table says that it is a list. The copy of an argument is made for it, so for
  such an argument a function never gets a list that its caller has.

  An append is the exception. Its value is a list, but for the symbol table it has none,
  so it is not copied: the function gets the very list that its caller has appended to.

  A call may be a statement by itself, which drops the result.

  Main definitions: `Passed`, `CallMade`, `OthersNew`, `AppendsShared`, `CallUse`. Main
  results: `Expr.value_noList`, `Passed.othersNew`, `Passed.appendsShared`,
  `call_evaluated`, `appended_list_shared`.
-/

import JasminGen.Proofs.Calls.Expressions

namespace JasminGen

-- ============================================================================
-- What a call does
-- ============================================================================

/-- `Passed A args W ws W'`: the words `ws` are passed for the arguments `args`, which are
    evaluated from the world `W` on, one after the other, up to the world `W'`. -/
inductive Passed (A : Activation) : List Expr → World → List Word → World → Prop where
  | nil {W : World} : Passed A [] W [] W
  | value {arg : Expr} {rest : List Expr} {w : Word} {ws : List Word} {W W₁ W' : World} :
      (∀ element, A.symbols.typeOf A.id arg ≠ .ok (.list element)) →
      arg.value A W = (.ok w, W₁) → Passed A rest W₁ ws W' → Passed A (arg :: rest) W (w :: ws) W'
  /-- A list is copied to a new object, and no other object changes meanwhile. -/
  | copy {arg : Expr} {rest : List Expr} {element : Ty} {w : Word} {ws : List Word}
      {W W₁ W' : World} {heap : List Cell} :
      A.symbols.typeOf A.id arg = .ok (.list element) →
      arg.value A { W with heap := W.heap ++ [.raw listClass] } = (.ok w, W₁) →
      Copied W₁.heap heap w (.ref W.heap.length) →
      (∀ address cell, address ≠ W.heap.length → W₁.heap[address]? = some cell →
        heap[address]? = some cell) →
      Passed A rest { W₁ with heap := heap } ws W' →
      Passed A (arg :: rest) W (.ref W.heap.length :: ws) W'

/-- A call with the result `w`: the word `t` is called with the words `ws`, and nothing
    else happens after that. The list of the arguments is an object of its own. -/
structure CallMade (A : Activation) (target : Expr) (args : List Expr) (result : Ty) (W : World)
    (t : Word) (ws : List Word) (w : Word) (W' : World) : Prop where
  once : ∃ W₁ W₂, target.value A W = (.ok t, W₁) ∧
    Passed A args { W₁ with heap := W₁.heap ++ [.plain arrayListClass] } ws W₂ ∧
    A.callee.invoke t ws W₂.toGlobals = (.ok w, W'.toGlobals) ∧
    W'.calls = W₂.calls ++ [⟨t, ws, W₂.toGlobals⟩]
  length_eq : ws.length = args.length
  narrowed : ∀ className, result.className? = some className →
    w = .null ∨ classAt? W'.heap w = some className

/-- The list to which an expression appends, if it is an append, possibly in groups. -/
def Expr.appended? : Expr → Option Expr
  | .group e => e.appended?
  | .append list _ => some list
  | _ => none

theorem Expr.isAppend_of_appended? {list : Expr} :
    ∀ {e : Expr}, e.appended? = some list → e.isAppend = true
  | .group e, h => isAppend_of_appended? (e := e) h
  | .append _ _, _ => rfl

section Passed

variable {A : Activation}

theorem Passed.length_eq {args : List Expr} {W W' : World} {ws : List Word}
    (h : Passed A args W ws W') : ws.length = args.length := by
  induction h with
  | nil => rfl
  | value _ _ _ ih => rw [List.length_cons, List.length_cons, ih]
  | copy _ _ _ _ _ ih => rw [List.length_cons, List.length_cons, ih]

/-- What is passed for arguments that are evaluated. -/
theorem Passed.of_values {args : List Expr} : ∀ {W W' : World} {ws : List Word},
    Expr.values A args W = (.ok ws, W') → Passed A args W ws W' := by
  induction args with
  | nil =>
      intro W W' ws h
      cases h
      exact .nil
  | cons arg rest ih =>
      intro W W' ws h
      by_cases hlist : ∃ element, A.symbols.typeOf A.id arg = .ok (.list element)
      · obtain ⟨element, hty⟩ := hlist
        rw [Expr.values_copied rest hty] at h
        obtain ⟨copy, W₀, hallocate, h⟩ := Attempt.bind_eq_ok h
        cases hallocate
        obtain ⟨w, W₁, hw, h⟩ := Attempt.bind_eq_ok h
        obtain ⟨_, W₂, hfill, h⟩ := Attempt.bind_eq_ok h
        obtain ⟨others, W₃, hrest, h⟩ := Attempt.bind_eq_ok h
        cases h
        rw [Evaluation.fill] at hfill
        split at hfill
        · next heap hcopy =>
            cases hfill
            exact .copy hty hw (copied_of_copyList hcopy)
              (fun _ _ hne hcell => getElem?_of_copyList hcopy hne hcell) (ih hrest)
        · cases hfill
      · rw [not_exists] at hlist
        rw [Expr.values_passed rest hlist] at h
        obtain ⟨w, W₁, hw, h⟩ := Attempt.bind_eq_ok h
        obtain ⟨others, W₂, hrest, h⟩ := Attempt.bind_eq_ok h
        cases h
        exact .value hlist hw (ih hrest)

/-- Narrowing gives the word itself, and changes nothing. -/
theorem Activation.narrow_eq_ok {e : Expr} {v w : Word} {W W' : World}
    (h : A.narrow e v W = (.ok w, W')) : w = v ∧ W' = W := by
  cases hty : A.symbols.typeOf A.id e with
  | error failure =>
      rw [Activation.narrow, hty] at h
      cases h
  | ok ty =>
      cases hclass : ty.className? with
      | none =>
          simp only [Activation.narrow, hty, Evaluation.narrow, hclass] at h
          cases h
          exact ⟨rfl, rfl⟩
      | some className =>
          simp only [Activation.narrow, hty, Evaluation.narrow, hclass] at h
          split at h
          · cases h
            exact ⟨rfl, rfl⟩
          · cases h

/-- A call that succeeds is made in this way. -/
theorem CallMade.of_value {target : Expr} {args : List Expr} {result : Ty} {W W' : World} {w : Word}
    (hfound : A.symbols.typeOf A.id (.call target args) = .ok result)
    (h : (Expr.call target args).value A W = (.ok w, W')) :
    ∃ t ws, CallMade A target args result W t ws w W' := by
  rw [Expr.value] at h
  obtain ⟨t, W₁, ht, h⟩ := Attempt.bind_eq_ok h
  obtain ⟨_, W₂, hallocate, h⟩ := Attempt.bind_eq_ok h
  cases hallocate
  obtain ⟨ws, W₃, hws, h⟩ := Attempt.bind_eq_ok h
  obtain ⟨v, W₄, hinvoke, hnarrow⟩ := Attempt.bind_eq_ok h
  obtain ⟨rfl, rfl⟩ := Activation.narrow_eq_ok hnarrow
  have hpassed := Passed.of_values hws
  refine ⟨t, ws, ⟨W₁, W₃, ht, hpassed, ?_⟩, hpassed.length_eq, fun className hclass => ?_⟩
  · obtain ⟨hresult, hworld⟩ := Prod.mk.inj hinvoke
    rw [← hworld]
    exact ⟨Prod.ext hresult rfl, rfl⟩
  · exact Evaluation.Gives.narrow w hfound hclass _ _ _ hnarrow

-- ============================================================================
-- New lists
-- ============================================================================

/-- Only variables of list types hold lists. -/
def ListsDeclared (A : Activation) (heap : List Cell) : Prop :=
  ∀ name ty w, A.symbols.lookupVariable A.id name = .ok (some ty) → A.vars name = some w →
    listAt? heap w ≠ none → ∃ element, ty = .list element

/-- An expression is a list for the symbol table, or its type stands for another class. -/
def ListOrOther (table : SymbolTable) (id : ScopeId) (e : Expr) : Prop :=
  (∃ element, table.typeOf id e = .ok (.list element)) ∨
    ∃ ty className, table.typeOf id e = .ok ty ∧ ty.className? = some className ∧
      className ≠ listClass

/-- If variables hold values of their types, then only those of list types hold lists. -/
theorem ListsDeclared.of_typed {symbols : SymbolTable} {id : ScopeId} {table : SlotTable}
    {types : Nat → Option Ty} {slots : Nat → Option Word} {callee : Callee} {heap : List Cell}
    (hheap : HeapTyped symbols types heap) (hslots : SlotsTyped symbols id table types slots) :
    ListsDeclared (.ofSlots symbols id table slots callee) heap := by
  intro name ty w hty hvar hlist
  obtain ⟨slot, hslot, hw⟩ := Option.bind_eq_some_iff.mp hvar
  obtain ⟨found, hfound, htyped⟩ := hslots name slot ty hslot hty
  rw [hw] at hfound
  cases hfound
  obtain ⟨elements, helements⟩ := Option.ne_none_iff_exists'.mp hlist
  obtain ⟨element, hty, -⟩ := hheap.list_of_listAt? htyped helements
  exact ⟨element, hty⟩

/-- A word for which there is another class is no list. -/
theorem listAt?_eq_none_of_class {heap heap' : List Cell} {className : String} {w : Word}
    (hkeeps : Keeps heap heap') (hclass : w = .null ∨ classAt? heap' w = some className)
    (hother : className ≠ listClass) : listAt? heap w = none := by
  cases hlist : listAt? heap w with
  | none => rfl
  | some elements =>
      obtain ⟨address, rfl, hcell⟩ := listAt?_eq_some.mp hlist
      obtain ⟨cell, hcell', hsame⟩ := hkeeps address _ hcell
      have hiscell : ∃ others, cell = .list others := by
        rcases hsame with rfl | ⟨-, hislist⟩
        · exact ⟨elements, rfl⟩
        · cases cell with
          | list others => exact ⟨others, rfl⟩
          | _ => cases hislist
      obtain ⟨others, rfl⟩ := hiscell
      rcases hclass with hnull | hclass
      · cases hnull
      · simp only [classAt?, Machine.className?, hcell', Option.some.injEq] at hclass
        exact absurd hclass.symm hother

theorem Evaluation.read_eq_ok {place : Option Word} {w : Word} {W W' : World}
    (h : Evaluation.read place W = (.ok w, W')) : place = some w := by
  cases place with
  | none => cases h
  | some found =>
      rw [Evaluation.read] at h
      split at h
      · cases h
      · cases h
        rfl

/-- The value of an expression whose type stands for another class is no list that was
    there before. -/
theorem Expr.value_noList {heap : List Cell} (hvars : ListsDeclared A heap) :
    ∀ {e : Expr} {ty : Ty} {className : String} {W W' : World} {w : Word},
      A.symbols.typeOf A.id e = .ok ty → ty.className? = some className → className ≠ listClass →
      Keeps heap W.heap → e.value A W = (.ok w, W') → listAt? heap w = none
  | .int _, _, _, W, W', w, _, _, _, _, h | .bool _, _, _, W, W', w, _, _, _, _, h
  | .binary _ _ _, _, _, W, W', w, _, _, _, _, h | .unary _ _, _, _, W, W', w, _, _, _, _, h
  | .size _, _, _, W, W', w, _, _, _, _, h => by
      have hscalar := value_scalar rfl W w W' h
      cases w with
      | ref address => cases hscalar
      | _ => rfl
  | .ident name, ty, className, W, W', w, hty, hclass, hother, hkeeps, h => by
      change A.symbols.typeOfName A.id name = .ok ty at hty
      cases hf : A.symbols.function? name with
      | some signature =>
          rw [value_function hf] at h
          obtain ⟨address, W₁, hallocate, h⟩ := Attempt.bind_eq_ok h
          cases hallocate
          obtain ⟨_, W₂, -, h⟩ := Attempt.bind_eq_ok h
          obtain ⟨_, W₃, -, h⟩ := Attempt.bind_eq_ok h
          cases h
          simp only [listAt?, List.getElem?_eq_none hkeeps.length_le]
      | none =>
          rw [value_variable hf] at h
          have hlookup := SymbolTable.lookupFunction_eq hty
          rw [hf] at hlookup
          by_contra hlist
          obtain ⟨element, rfl⟩ := hvars name ty w (SymbolTable.typeOfName_variable hlookup hty)
            (Evaluation.read_eq_ok h) hlist
          exact hother (Option.some.inj hclass).symm
  | .group e, _, _, _, _, _, hty, hclass, hother, hkeeps, h => by
      rw [value] at h
      exact value_noList hvars (e := e) hty hclass hother hkeeps h
  | .index l r, ty, className, W, W', w, hty, hclass, hother, hkeeps, h => by
      have hnarrowed : ((Expr.index l r).value A).Gives fun w W =>
          w = .null ∨ classAt? W.heap w = some className :=
        .bind fun _ => .bind fun _ => .bind fun _ => .bind fun _ => .bind fun v =>
          .narrow v hty hclass
      have hkept := ((Expr.index l r).value_keepsHeap A).of_eq h
      exact listAt?_eq_none_of_class (hkeeps.trans hkept) (hnarrowed W w W' h) hother
  | .call target args, ty, className, W, W', w, hty, hclass, hother, hkeeps, h => by
      have hnarrowed : ((Expr.call target args).value A).Gives fun w W =>
          w = .null ∨ classAt? W.heap w = some className :=
        .bind fun _ => .bind fun _ => .bind fun _ => .bind fun v => .narrow v hty hclass
      have hkept := ((Expr.call target args).value_keepsHeap A).of_eq h
      exact listAt?_eq_none_of_class (hkeeps.trans hkept) (hnarrowed W w W' h) hother
  | .append _ _, _, _, _, _, _, hty, hclass, _, _, _ => by
      cases hty
      cases hclass
  | .field _ _, _, _, _, _, _, hty, _, _, _, _ => by
      cases hty

/-- For an argument other than an append, no list of the heap is passed. Structs that are
    named like the class of lists are left out: for the machine they are lists. -/
def OthersNew (A : Activation) (heap : List Cell) (args : List Expr) (ws : List Word) : Prop :=
  List.Forall₂ (fun arg w => arg.isAppend = false →
    A.symbols.typeOf A.id arg ≠ .ok (.struct listClass) → listAt? heap w = none) args ws

/-- For an append, the list itself is passed to which it appends. It is evaluated in a world
    in which all objects of the heap are still there. -/
def AppendsShared (A : Activation) (heap : List Cell) (args : List Expr) (ws : List Word) : Prop :=
  List.Forall₂ (fun arg w => ∀ list, arg.appended? = some list →
    ∃ W₁ W₂, Keeps heap W₁.heap ∧ list.value A W₁ = (.ok w, W₂)) args ws

/-- Arguments that are no lists are not among the lists that were there before, and
    copies are made later. -/
theorem Passed.othersNew {heap : List Cell} (hvars : ListsDeclared A heap) {args : List Expr}
    {W W' : World} {ws : List Word} (h : Passed A args W ws W')
    (hargs : ∀ arg ∈ args, arg.isAppend = false →
      A.symbols.typeOf A.id arg ≠ .ok (.struct listClass) → ListOrOther A.symbols A.id arg)
    (hkeeps : Keeps heap W.heap) : OthersNew A heap args ws := by
  induction h with
  | nil => exact .nil
  | @value arg rest w ws W W₁ W' hno hvalue _ ih =>
      obtain ⟨harg, hrest⟩ := List.forall_mem_cons.mp hargs
      have hkept := (arg.value_keepsHeap A).of_eq hvalue
      refine .cons (fun happend hstruct => ?_) (ih hrest (hkeeps.trans hkept))
      rcases harg happend hstruct with ⟨element, hlist⟩ | ⟨ty, className, hty, hclass, hother⟩
      · exact absurd hlist (hno element)
      · exact Expr.value_noList hvars hty hclass hother hkeeps hvalue
  | @copy arg rest element w ws W W₁ W' heap' _ hvalue _ hsame _ ih =>
      obtain ⟨-, hrest⟩ := List.forall_mem_cons.mp hargs
      have hkept := (arg.value_keepsHeap A).of_eq hvalue
      have hcopied : Keeps W.heap heap' :=
        .of_pushed hkept fun address cell hlt => hsame address cell (Nat.ne_of_lt hlt)
      refine .cons (fun _ _ => ?_) (ih hrest (hkeeps.trans hcopied))
      simp only [listAt?, List.getElem?_eq_none hkeeps.length_le]

/-- The value of an append is that of its list. -/
theorem Expr.value_appended {list : Expr} : ∀ {e : Expr} {W W' : World} {w : Word},
    e.appended? = some list → e.value A W = (.ok w, W') →
      ∃ W₁, list.value A W = (.ok w, W₁)
  | .group e, _, _, _, hlist, h => by
      rw [value] at h
      exact value_appended (e := e) hlist h
  | .append l r, W, W', w, hlist, h => by
      obtain rfl := Option.some.inj hlist
      rw [value] at h
      obtain ⟨v, W₁, hl, h⟩ := Attempt.bind_eq_ok h
      obtain ⟨_, _, -, h⟩ := Attempt.bind_eq_ok h
      obtain ⟨_, _, -, h⟩ := Attempt.bind_eq_ok h
      cases h
      exact ⟨W₁, hl⟩

/-- An append is not copied. -/
theorem Passed.appendsShared {heap : List Cell} {args : List Expr} {W W' : World}
    {ws : List Word} (h : Passed A args W ws W') (hkeeps : Keeps heap W.heap) :
    AppendsShared A heap args ws := by
  induction h with
  | nil => exact .nil
  | @value arg rest w ws W W₁ W' _ hvalue _ ih =>
      have hkept := (arg.value_keepsHeap A).of_eq hvalue
      refine .cons (fun list hlist => ?_) (ih (hkeeps.trans hkept))
      obtain ⟨W₂, hvalue'⟩ := Expr.value_appended hlist hvalue
      exact ⟨W, W₂, hkeeps, hvalue'⟩
  | @copy arg rest element w ws W W₁ W' heap' hty hvalue _ hsame _ ih =>
      have hkept := (arg.value_keepsHeap A).of_eq hvalue
      have hcopied : Keeps W.heap heap' :=
        .of_pushed hkept fun address cell hlt => hsame address cell (Nat.ne_of_lt hlt)
      refine .cons (fun list hlist => ?_) (ih (hkeeps.trans hcopied))
      -- what is copied has a list type, and an append has none
      have hvoid : A.symbols.typeOf A.id arg = .ok .void :=
        SymbolTable.typeOf_append (Expr.isAppend_of_appended? hlist)
      cases hty.symm.trans hvoid

/-- What is passed in a call, as seen from before the call. -/
theorem CallMade.passed {target : Expr} {args : List Expr} {result : Ty} {W W' : World}
    {t w : Word} {ws : List Word} (h : CallMade A target args result W t ws w W') :
    ∃ W₁ W₂, Keeps W.heap W₁.heap ∧ Passed A args W₁ ws W₂ := by
  obtain ⟨W₁, W₂, htarget, hpassed, -⟩ := h.once
  have hkept := (target.value_keepsHeap A).of_eq htarget
  exact ⟨_, W₂, hkept.trans (.push _ _), hpassed⟩

end Passed

/-- The parts of a call that is lowered. -/
theorem ExprLowered.of_call {S : Setting} {f f' : Frame} {target : Expr} {args : List Expr}
    {parts : List Fragment} (h : ExprLowered S (.one (.call target args)) f parts f') :
    ∃ params result f₁ pt pa, S.oracle f.activeScope target = .ok (.fptr params result) ∧
      ExprLowered S (.one target) f pt f₁ ∧ ExprLowered S (.args args) f₁ pa f' := by
  cases h with
  | call hty ht ha => exact ⟨_, _, _, _, _, hty, ht, ha⟩

/-- The symbol table knows the types of arguments that are lowered. -/
theorem ExprLowered.args_typed {S : Setting} {args : List Expr} :
    ∀ {f f' : Frame} {parts : List Fragment}, ExprLowered S (.args args) f parts f' →
      ∀ arg ∈ args, ∃ ty, S.oracle f.activeScope arg = .ok ty := by
  induction args with
  | nil => simp
  | cons arg rest ih =>
      intro f f' parts h
      rw [List.forall_mem_cons]
      cases h with
      | argsCopied hty harg hrest => exact ⟨⟨_, hty⟩, harg.activeScope ▸ ih hrest⟩
      | argsPassed hty _ harg hrest => exact ⟨⟨_, hty⟩, harg.activeScope ▸ ih hrest⟩

/-- Appends and structs that are named like the class of lists are the only arguments for
    which this may fail. -/
theorem ArgsHaveTypes.list_or_other {table : SymbolTable} {id : ScopeId} {args : List Expr} :
    ∀ {params : List Ty}, ArgsHaveTypes table id args params →
      (∀ arg ∈ args, ∃ ty, table.typeOf id arg = .ok ty) →
      ∀ arg ∈ args, arg.isAppend = false → table.typeOf id arg ≠ .ok (.struct listClass) →
        ListOrOther table id arg := by
  induction args with
  | nil => simp
  | cons arg rest ih =>
      intro params ht hknown
      obtain ⟨ty, others, rfl, harg, hne, hrest⟩ := ht.of_cons
      obtain ⟨⟨found, hfound⟩, hknown⟩ := List.forall_mem_cons.mp hknown
      refine List.forall_mem_cons.mpr ⟨fun happend hstruct => ?_, ih hrest hknown⟩
      obtain rfl := harg.typeOf_eq hfound happend
      cases found with
      | list element => exact .inl ⟨element, hfound⟩
      | void => exact absurd rfl hne
      | struct name =>
          refine .inr ⟨_, name, hfound, rfl, ?_⟩
          rintro rfl
          exact hstruct hfound
      | int => exact .inr ⟨_, _, hfound, rfl, by decide⟩
      | bool => exact .inr ⟨_, _, hfound, rfl, by decide⟩
      | fptr params result => exact .inr ⟨_, _, hfound, rfl, by decide⟩

theorem HasType.args_list_or_other {S : Setting} {f f' : Frame} {target : Expr}
    {args : List Expr} {ty : Ty} {parts : List Fragment} (horacle : S.oracle = S.symbols.typeOf)
    (htyped : HasType S.symbols f.activeScope (.call target args) ty)
    (hlowered : ExprLowered S (.one (.call target args)) f parts f') :
    ∀ arg ∈ args, arg.isAppend = false →
      S.symbols.typeOf f.activeScope arg ≠ .ok (.struct listClass) →
      ListOrOther S.symbols f.activeScope arg := by
  obtain ⟨_, _, f₁, _, _, -, htarget, hargs⟩ := hlowered.of_call
  obtain ⟨params, -, hparams⟩ := htyped.of_call
  have hknown := hargs.args_typed
  rw [htarget.activeScope, horacle] at hknown
  exact hparams.list_or_other hknown

-- ============================================================================
-- The code of calls
-- ============================================================================

/-- What a call is for: its result, or only its effect. -/
inductive CallUse where
  | result
  | effect

namespace CallUse

/-- The call is an expression, or a statement by itself. -/
def lower (target : Expr) (args : List Expr) : CallUse → Gen Unit
  | result => (Expr.call target args).lower
  | effect => (Stmt.call target args).lower

/-- The stack after a call of a function whose result has the type. -/
def leave (ty : Ty) (w : Word) (stack : List Word) : CallUse → List Word
  | result => ty.leave w stack
  | effect => stack

/-- The instructions after those of the call, if the target has the type. -/
def drop (targetTy : Ty) : CallUse → List Instr
  | result => []
  | effect => dropping targetTy

variable {S : Setting} {f f' : Frame} {target : Expr} {args : List Expr} {acts : List Action}

theorem lowered (use : CallUse) (h : Emits (use.lower target args) S f () acts f') :
    ∃ parts params result, S.oracle f.activeScope target = .ok (.fptr params result) ∧
      ExprLowered S (.one (.call target args)) f parts f' ∧
      codesOf acts = Fragment.codeAll parts ++ (use.drop (.fptr params result)).map Code.instr := by
  cases use with
  | result =>
      obtain ⟨parts, hlowered, -, rfl⟩ := (Expr.call target args).lower_lowered h
      obtain ⟨params, result, _, _, _, hty, -⟩ := hlowered.of_call
      exact ⟨parts, params, result, hty, hlowered, by simp [drop]⟩
  | effect =>
      obtain ⟨parts, hlowered, -, hwrites⟩ := (Stmt.call target args).lower_lowered h
      cases hlowered with
      | call hty hcall =>
          obtain ⟨params, result, _, _, _, hty', -⟩ := hcall.of_call
          obtain rfl := Except.ok.inj (hty.symm.trans hty')
          refine ⟨_, params, result, hty, hcall, ?_⟩
          rw [hwrites.code]
          simp [drop]

/-- The type of the result decides what is dropped. -/
theorem lowered_typed (use : CallUse) {ty : Ty} (horacle : S.oracle = S.symbols.typeOf)
    (h : Emits (use.lower target args) S f () acts f')
    (htyped : HasType S.symbols f.activeScope (.call target args) ty) :
    ∃ parts params, S.symbols.typeOf f.activeScope (.call target args) = .ok ty ∧
      ExprLowered S (.one (.call target args)) f parts f' ∧
      codesOf acts = Fragment.codeAll parts ++ (use.drop (.fptr params ty)).map Code.instr := by
  obtain ⟨parts, params, result, hty, hlowered, hcode⟩ := use.lowered h
  rw [horacle] at hty
  have hcall : S.symbols.typeOf f.activeScope (.call target args) = .ok result :=
    SymbolTable.typeOf_call.mpr ⟨params, hty⟩
  obtain rfl := htyped.typeOf_eq hcall rfl
  exact ⟨parts, params, hcall, hlowered, hcode⟩

theorem dropping_of_ne_void {params : List Ty} {ty : Ty} (h : ty ≠ .void) :
    dropping (.fptr params ty) = [.pop] := by
  cases ty with
  | void => exact absurd rfl h
  | _ => rfl

/-- The code of a call follows the evaluation of the call, and drops a result that nobody
    uses. -/
theorem follows (use : CallUse) {code : List Code} {place : Nat} {parts : List Fragment}
    {params : List Ty} {ty : Ty} (callee : Callee) (slots : Nat → Option Word) (stack : List Word)
    (W : World) (arrays : Nat → List Word) (horacle : S.oracle = S.symbols.typeOf)
    (hlowered : ExprLowered S (.one (.call target args)) f parts f')
    (htyped : HasType S.symbols f.activeScope (.call target args) ty)
    (hlinked : Linked code place
      (Fragment.codeAll parts ++ (use.drop (.fptr params ty)).map Code.instr)) :
    Follows callee code place ⟨stack, slots, W, arrays⟩
      (fun w => (place + (codeSize parts + (use.drop (.fptr params ty)).length),
        use.leave ty w stack))
      (fun _ arrays' => ∀ address, address < W.heap.length → arrays' address = arrays address)
      ((Expr.call target args).value (.ofSlots S.symbols f.activeScope f'.slots slots callee)
        W) := by
  obtain ⟨hcall, hdrop⟩ := Linked.append_iff.mp hlinked
  rw [← bind_pure ((Expr.call target args).value _)]
  refine (CallHost.follows_of_linked callee slots stack W arrays horacle hlowered htyped hcall).bind
    fun w W' arrays' _ hkept => ?_
  cases use with
  | result => exact .pure rfl hkept
  | effect =>
      by_cases hvoid : ty = .void
      · subst hvoid
        exact .pure rfl hkept
      · simp only [drop, dropping_of_ne_void hvoid, List.map_cons, Linked.cons_instr_iff] at hdrop ⊢
        rw [Ty.leave_of_ne hvoid]
        exact .exec hdrop.1 rfl rfl (.pure rfl hkept)

/-- The code of a call does so between other code. -/
theorem follows_between (use : CallUse) {ty : Ty} (before after : List Code) (callee : Callee)
    (slots : Nat → Option Word) (stack : List Word) (W : World) (arrays : Nat → List Word)
    (horacle : S.oracle = S.symbols.typeOf)
    (haccepted : Emits (use.lower target args) S f () acts f')
    (htyped : HasType S.symbols f.activeScope (.call target args) ty)
    (hlabels : (Expr.call target args).labelCount ≤ UInt32.size)
    (hbefore : ∀ l ∈ declared (codesOf acts), l ∉ declared before) :
    Follows callee (before ++ codesOf acts ++ after) before.length ⟨stack, slots, W, arrays⟩
      (fun w => (before.length + (codesOf acts).length, use.leave ty w stack))
      (fun _ arrays' => ∀ address, address < W.heap.length → arrays' address = arrays address)
      ((Expr.call target args).value (.ofSlots S.symbols f.activeScope f'.slots slots callee)
        W) := by
  obtain ⟨parts, params, -, hlowered, hcode⟩ := use.lowered_typed horacle haccepted htyped
  have hlinked : Linked (before ++ codesOf acts ++ after) before.length (codesOf acts) := by
    refine linked_of_nodup ?_ hbefore
    rw [hcode, declared_append, declared_map_instr, List.append_nil]
    exact hlowered.labelled.declared_nodup hlabels
  rw [hcode] at hlinked ⊢
  rw [List.length_append, List.length_map]
  exact use.follows callee slots stack W arrays horacle hlowered htyped hlinked

end CallUse

-- ============================================================================
-- Calls in their context
-- ============================================================================

/-- A call in the middle of other code. The machine does what the call does, leaves the
    slots alone and puts the result on the stack, if there is one and the call is no
    statement. Where the evaluation of the call fails, the machine stops.

    If only variables of list types hold lists, then no list that was there before the
    call is passed to the function for an argument that is not an append. For an append the
    list itself is passed to which it appends. If the function respects types, then only
    traps come up that are its own, apart from division by zero and positions out of
    range. -/
theorem call_evaluated (use : CallUse) {S : Setting} {f f' : Frame} {target : Expr}
    {args : List Expr} {ty : Ty} {acts : List Action} (before after : List Code) (callee : Callee)
    (stack : List Word) (slots : Nat → Option Word) (W : World) (arrays : Nat → List Word)
    (horacle : S.oracle = S.symbols.typeOf)
    (haccepted : Emits (use.lower target args) S f () acts f')
    (htyped : HasType S.symbols f.activeScope (.call target args) ty)
    (hlabels : (Expr.call target args).labelCount ≤ UInt32.size)
    (hbefore : ∀ l ∈ declared (codesOf acts), l ∉ declared before) :
    let A : Activation := .ofSlots S.symbols f.activeScope f'.slots slots callee
    let code := before ++ codesOf acts ++ after
    (∀ w W', (Expr.call target args).value A W = (.ok w, W') →
      (∃ t ws, CallMade A target args ty W t ws w W' ∧
        (ListsDeclared A W.heap → OthersNew A W.heap args ws) ∧ AppendsShared A W.heap args ws) ∧
      ∃ arrays', (∀ address, address < W.heap.length → arrays' address = arrays address) ∧
        Caller.Leads callee code (before.length, ⟨stack, slots, W, arrays⟩)
          (before.length + (codesOf acts).length,
            ⟨use.leave ty w stack, slots, W', arrays'⟩)) ∧
    (∀ trap W', (Expr.call target args).value A W = (.error trap, W') →
      Caller.Stops callee code (before.length, ⟨stack, slots, W, arrays⟩) trap W') ∧
    ∀ (allowed : Trap → Prop) (types : Nat → Option Ty), allowed .divisionByZero →
      allowed .indexOutOfRange → A.Safe allowed → HeapTyped S.symbols types W.heap →
      SlotsTyped S.symbols f.activeScope f'.slots types slots →
      Safe S.symbols allowed W.heap types ty.holds ((Expr.call target args).value A W) := by
  intro A code
  obtain ⟨parts, params, hty, hlowered, -⟩ := use.lowered_typed horacle haccepted htyped
  have hfollows := use.follows_between before after callee slots stack W arrays horacle haccepted
    htyped hlabels hbefore
  refine ⟨fun w W' hvalue => ?_, fun trap W' hvalue => ?_, ?_⟩
  · rw [hvalue] at hfollows
    obtain ⟨t, ws, hmade⟩ := CallMade.of_value (A := A) hty hvalue
    obtain ⟨W₁, W₂, hkept, hpassed⟩ := hmade.passed
    refine ⟨⟨t, ws, hmade, fun hvars => ?_, hpassed.appendsShared hkept⟩, hfollows⟩
    exact hpassed.othersNew hvars (htyped.args_list_or_other horacle hlowered) hkept
  · rw [hvalue] at hfollows
    exact hfollows
  · intro allowed types hdiv hindex hsafe hheap hslots
    exact CallHost.safe_of_lowered horacle hlowered htyped (fun _ => hsafe) hdiv hindex hheap hslots

/-- A function of a list and a position: it gives the element there and empties the list. -/
def takingCallee : Callee where
  invoke target ws g :=
    match target, ws with
    | .ref _, [list, .integer n] =>
      match list, listAt? g.heap list with
      | .ref address, some elements =>
        match elements[n.toInt.toNat]? with
        | some w => (.ok w, { g with heap := g.heap.set address (.list []) })
        | none => (.error .indexOutOfRange, g)
      | _, _ => (.error .illegal, g)
    | _, _ => (.error .unassigned, g)
  keeps _ ws g := by
    split
    · split
      · next hlist =>
          obtain ⟨address, heq, hcell⟩ := listAt?_eq_some.mp hlist
          cases heq
          split
          · exact .set hcell []
          · exact .refl g.heap
      · exact .refl g.heap
    · exact .refl g.heap

/-- `pick(xs, pick(xs, 0))` -/
def nestedCall : Expr :=
  .call (.ident "pick") [.ident "xs", .call (.ident "pick") [.ident "xs", .int 0]]

theorem hasType_nestedCall : HasType (.ofProgram listProgram) ⟨2⟩ nestedCall .int := by
  have hxs : HasType (.ofProgram listProgram) ⟨2⟩ (.ident "xs") (.list .int) := .ident rfl (by simp)
  have hpick : HasType (.ofProgram listProgram) ⟨2⟩ (.ident "pick")
      (.fptr [.list .int, .int] .int) := .ident rfl (by simp)
  have hinner := HasType.call hpick (.cons hxs (by simp) (.cons (.int (n := 0)) (by simp) .nil))
  exact .call hpick (.cons hxs (by simp) (.cons hinner (by simp) .nil))

theorem pointerTy_listProgram {name : String} {signature : Signature}
    (h : (SymbolTable.ofProgram listProgram).function? name = some signature) :
    signature.pointerTy = .fptr [.list .int, .int] .int := by
  have hmem : signature ∈ (SymbolTable.ofProgram listProgram).functions :=
    List.mem_of_find?_eq_some h
  rw [List.mem_singleton.mp hmem]
  rfl

theorem takingCallee_safe : takingCallee.Safe (.ofProgram listProgram) (· ≠ .illegal) := by
  intro types params result target ws g hheap htarget hws
  generalize hpointer : Ty.fptr params result = pointer at htarget
  cases htarget with
  | noPointer => simp [takingCallee]
  | object ha =>
      obtain ⟨cell, hcell, hty⟩ := hheap _ _ ha
      cases hty with
      | fptr hf =>
          rw [pointerTy_listProgram hf] at hpointer
          cases hpointer
          obtain ⟨list, _, hlist, hrest, rfl⟩ := List.forall₂_cons_right_iff.mp hws
          obtain ⟨n, _, hn, hnil, rfl⟩ := List.forall₂_cons_right_iff.mp hrest
          obtain rfl := List.forall₂_nil_right_iff.mp hnil
          obtain ⟨address, elements, rfl, haddress, hcell, hs⟩ := hheap.list_inv hlist
          obtain ⟨n, rfl⟩ := hheap.int_inv hn
          simp only [takingCallee, listAt?_eq_some.mpr ⟨address, rfl, hcell⟩]
          cases hw : elements[n.toInt.toNat]? with
          | none => simp
          | some w =>
              refine ⟨types, ⟨by simp, fun _ _ => rfl, hheap.set haddress (by simp)⟩, fun _ => ?_⟩
              exact hs w (List.mem_of_getElem? hw)
      | _ => cases hpointer
  | _ => cases hpointer

/-- The program's body, with its list and its flag. -/
def listActivation : Activation :=
  .ofSlots (.ofProgram listProgram) ⟨2⟩ listTable listSlots takingCallee

theorem listActivation_safe : listActivation.Safe (· ≠ .illegal) :=
  ⟨⟨.ref 1, rfl, rfl⟩, takingCallee_safe⟩

/-- The world after the calls. -/
def nestedWorld : World := (nestedCall.value listActivation listWorld).2

theorem value_nestedCall :
    nestedCall.value listActivation listWorld = (.ok (.integer 2), nestedWorld) := by
  have hresult : (nestedCall.value listActivation listWorld).1 = .ok (.integer 2) := by
    decide +kernel
  rw [nestedWorld, ← hresult, Prod.eta]

theorem arguments_nestedWorld :
    nestedWorld.calls.map Invocation.arguments = [[.ref 7, .integer 0], [.ref 4, .integer 1]] := by
  decide +kernel

/-- Both calls get copies, and the list of the caller keeps its elements. -/
theorem nestedCall_evaluated :
    HasType (.ofProgram listProgram) ⟨2⟩ nestedCall .int ∧ listActivation.Safe (· ≠ .illegal) ∧
      Safe (.ofProgram listProgram) (· ≠ .illegal) listHeap listTypes Ty.int.holds
        (nestedCall.value listActivation listWorld) ∧
      ∃ acts f',
        Emits nestedCall.lower (.ofProgram listProgram {}) ⟨[⟨2⟩], listTable, ⟨0⟩⟩ () acts f' ∧
        ∃ ws arrays', (∀ v ∈ ws, listAt? listHeap v = none) ∧ nestedWorld.heap.take 2 = listHeap ∧
          nestedWorld.calls.map Invocation.arguments = [[.ref 7, .integer 0], ws] ∧
          Caller.Leads takingCallee (codesOf acts)
            (0, ⟨[.int 5], listSlots, listWorld, fun _ => []⟩)
            ((codesOf acts).length, ⟨[.integer 2, .int 5], listSlots, nestedWorld, arrays'⟩) := by
  have haccepted :
      Emits nestedCall.lower (.ofProgram listProgram {}) ⟨[⟨2⟩], listTable, ⟨0⟩⟩ () _ _ :=
    ⟨rfl, rfl, rfl⟩
  obtain ⟨hreturns, -, hsafe⟩ := call_evaluated .result [] [] takingCallee [.int 5] listSlots
    listWorld (fun _ => []) rfl haccepted hasType_nestedCall (by decide) (by simp)
  obtain ⟨⟨t, ws, hmade, hnew, -⟩, arrays', -, hleads⟩ := hreturns _ _ value_nestedCall
  have hws : ws = [.ref 4, .integer 1] := by
    obtain ⟨W₁, W₂, -, -, -, hcalls⟩ := hmade.once
    have hlast : (nestedWorld.calls.map Invocation.arguments).getLast? = some ws := by
      rw [hcalls, List.map_append]
      exact List.getLast?_concat
    rw [arguments_nestedWorld] at hlast
    exact (Option.some.inj hlast).symm
  subst hws
  refine ⟨hasType_nestedCall, listActivation_safe, ?_, _, _, haccepted, _, arrays', ?_,
    by decide +kernel, arguments_nestedWorld, ?_⟩
  · exact hsafe _ listTypes (by simp) (by simp) listActivation_safe heapTyped_listHeap
      slotsTyped_listSlots
  · have hothers := hnew (.of_typed heapTyped_listHeap slotsTyped_listSlots)
    cases hothers with
    | cons hlist hrest =>
        cases hrest with
        | cons hposition _ =>
            intro v hv
            rcases List.mem_pair.mp hv with rfl | rfl
            · exact hlist rfl (by decide)
            · exact hposition rfl (by decide)
  · rw [List.append_nil, List.length_nil, Nat.zero_add] at hleads
    exact hleads

/-- `pick(append(xs, 9), 0)` -/
def appendedCall : Expr :=
  .call (.ident "pick") [.append (.ident "xs") (.int 9), .int 0]

/-- A list that is appended to in an argument is not copied. The call has a type and is
    lowered, but the function gets the list of its caller, and empties it. -/
theorem appended_list_shared :
    HasType (.ofProgram listProgram) ⟨2⟩ appendedCall .int ∧ listActivation.vars "xs" = some (.ref 0) ∧
      ∃ acts f',
        Emits appendedCall.lower (.ofProgram listProgram {}) ⟨[⟨2⟩], listTable, ⟨0⟩⟩ () acts f' ∧
        ∃ W', appendedCall.value listActivation listWorld = (.ok (.integer 1), W') ∧
          W'.calls.map Invocation.arguments = [[.ref 0, .integer 0]] ∧
          listAt? listWorld.heap (.ref 0) = some [.integer 1, .integer 2] ∧
          listAt? W'.heap (.ref 0) = some [] ∧
          ∃ arrays', Caller.Leads takingCallee (codesOf acts)
            (0, ⟨[], listSlots, listWorld, fun _ => []⟩)
            ((codesOf acts).length, ⟨[.integer 1], listSlots, W', arrays'⟩) := by
  have hxs : HasType (.ofProgram listProgram) ⟨2⟩ (.ident "xs") (.list .int) := .ident rfl (by simp)
  have hpick : HasType (.ofProgram listProgram) ⟨2⟩ (.ident "pick")
      (.fptr [.list .int, .int] .int) := .ident rfl (by simp)
  have htyped : HasType (.ofProgram listProgram) ⟨2⟩ appendedCall .int :=
    .call hpick (.cons (.append hxs .int (by simp)) (by simp) (.cons .int (by simp) .nil))
  have haccepted :
      Emits appendedCall.lower (.ofProgram listProgram {}) ⟨[⟨2⟩], listTable, ⟨0⟩⟩ () _ _ :=
    ⟨rfl, rfl, rfl⟩
  have hresult : (appendedCall.value listActivation listWorld).1 = .ok (.integer 1) := by
    decide +kernel
  have hvalue : appendedCall.value listActivation listWorld =
      (.ok (.integer 1), (appendedCall.value listActivation listWorld).2) := by
    rw [← hresult, Prod.eta]
  have hfollows := CallUse.result.follows_between [] [] takingCallee listSlots [] listWorld
    (fun _ => []) rfl haccepted htyped (by decide) (by simp)
  obtain ⟨arrays', -, hleads⟩ := hvalue ▸ hfollows
  refine ⟨htyped, rfl, _, _, haccepted, _, hvalue, by decide +kernel, rfl, by decide +kernel,
    arrays', ?_⟩
  rw [List.append_nil, List.length_nil, Nat.zero_add] at hleads
  exact hleads

end JasminGen
