/-
  JasminGen.Proofs.SlotNumbering

  Slots by number. Whatever calls a method makes for slots, after its parameters have
  theirs, the calls that take a slot of their own are the anonymous ones and the first with
  each name, and the j-th of them takes slot j. So a table is known from the list of these
  calls: the slot of a name is the place of its first call, counted from 1, and a place of
  an anonymous call belongs to no name. The list ends where 16 bits do.

  One call is compared with the list by `Numbers.request_of_new`, `Numbers.request_of_full`
  and `Numbers.request_of_taken`; that a whole run keeps to it, `reached_tableAfter`, follows
  by induction.

  Main definitions: `SlotTable.Call`, `SlotTable.taking`, `SlotTable.Numbers`. Main result:
  `slots_numbered`.
-/

import JasminGen.Slot
import JasminGen.Proofs.Transcript
import Mathlib.Data.List.Induction

namespace JasminGen

namespace SlotTable

-- ============================================================================
-- Calls
-- ============================================================================

/-- A call that asks a table for a slot. -/
inductive Call where
  | named (name : String)
  | anonymous
  deriving DecidableEq

/-- Make a call on a table: the slot, and the table that is left. -/
def request (table : SlotTable) : Call → Except Fault (Nat × SlotTable)
  | .named name => table.allocate name
  | .anonymous => table.allocateAnonymous

/-- Make a call in a run, which a fault ends: no later call is answered. -/
def call (state : Except Fault SlotTable) (c : Call) : Except Fault Nat × Except Fault SlotTable :=
  let result := state.bind (·.request c)
  (result.map Prod.fst, result.map Prod.snd)

theorem request_named {table : SlotTable} {name : String} {slot : Nat}
    (h : table.get? name = some slot) : table.request (.named name) = .ok (slot, table) := by
  rw [request, allocate, h]

theorem call_ok (table : SlotTable) (c : Call) :
    call (.ok table) c = ((table.request c).map Prod.fst, (table.request c).map Prod.snd) := rfl

/-- What a method's parameters and the calls after them lead to. -/
def tableAfter (params : List String) (calls : List Call) : Except Fault SlotTable :=
  stateAfter call (forMethod params) calls

/-- The answers to the calls after a method's parameters, in order. -/
def answers (params : List String) (calls : List Call) : List (Except Fault Nat) :=
  answersTo call (forMethod params) calls

-- ============================================================================
-- Calls that take a slot of their own
-- ============================================================================

/-- A call takes a slot of its own if it is anonymous or the first with its name. -/
def Call.IsNew (c : Call) (before : List Call) : Prop :=
  c = .anonymous ∨ c ∉ before

instance (c : Call) (before : List Call) : Decidable (c.IsNew before) :=
  inferInstanceAs (Decidable (_ ∨ _))

/-- The calls that take a slot of their own, in order. -/
def taking (calls : List Call) : List Call :=
  calls.foldl (fun taken c => if c.IsNew taken then taken ++ [c] else taken) []

/-- All calls of a method: those that bind its parameters come first. -/
def history (params : List String) (calls : List Call) : List Call :=
  params.map .named ++ calls

/-- The number of slots that a method's parameters and the calls after them ask for. -/
def slotCount (params : List String) (calls : List Call) : Nat :=
  (taking (history params calls)).length

theorem taking_concat_taken (calls : List Call) (c : Call) :
    taking (calls ++ [c]) =
      if c.IsNew (taking calls) then taking calls ++ [c] else taking calls := by
  rw [taking, List.foldl_append]
  rfl

theorem mem_taking {calls : List Call} {c : Call} : c ∈ taking calls ↔ c ∈ calls := by
  induction calls using List.reverseRecOn with
  | nil => exact Iff.rfl
  | append_singleton calls d ih =>
      rw [taking_concat_taken]
      split
      · rw [List.mem_append, List.mem_append, ih]
      · next hold =>
          have hmem : d ∈ taking calls := Decidable.not_not.mp (not_or.mp hold).2
          rw [ih, List.mem_append, List.mem_singleton]
          refine ⟨.inl, ?_⟩
          rintro (hc | rfl)
          · exact hc
          · exact ih.mp hmem

theorem isNew_taking {calls : List Call} {c : Call} : c.IsNew (taking calls) ↔ c.IsNew calls :=
  or_congr_right (not_congr mem_taking)

/-- One more call adds itself at the end, or nothing. -/
theorem taking_concat (calls : List Call) (c : Call) :
    taking (calls ++ [c]) = if c.IsNew calls then taking calls ++ [c] else taking calls :=
  (taking_concat_taken calls c).trans (if_congr isNew_taking rfl rfl)

theorem taking_isPrefix {calls calls' : List Call} (h : calls <+: calls') :
    taking calls <+: taking calls' := by
  obtain ⟨more, rfl⟩ := h
  induction more using List.reverseRecOn with
  | nil => simp
  | append_singleton more c ih =>
      rw [← List.append_assoc, taking_concat]
      split
      · exact ih.trans (List.prefix_append _ _)
      · exact ih

-- ============================================================================
-- A table is known from the calls that take slots
-- ============================================================================

/-- A table has numbered the given calls by their places, from 1 on. -/
structure Numbers (table : SlotTable) (taken : List Call) : Prop where
  next_eq : table.next = taken.length + 1
  few : taken.length < slotLimit
  get?_iff : ∀ name slot, table.get? name = some slot ↔
    ∃ place, taken[place]? = some (Call.named name) ∧ slot = place + 1

theorem numbers_empty : Numbers empty [] where
  next_eq := rfl
  few := by decide
  get?_iff name slot := by simp [get?, empty]

namespace Numbers

variable {table : SlotTable} {taken : List Call} {c : Call} {name : String}

theorem get?_eq_none_iff (h : Numbers table taken) :
    table.get? name = none ↔ Call.named name ∉ taken := by
  rw [Option.eq_none_iff_forall_ne_some, List.mem_iff_getElem?, not_exists]
  constructor
  · intro hnone place hplace
    exact hnone _ ((h.get?_iff name _).mpr ⟨place, hplace, rfl⟩)
  · intro hmem slot hslot
    obtain ⟨place, hplace, -⟩ := (h.get?_iff name slot).mp hslot
    exact hmem place hplace

theorem name_inj (h : Numbers table taken) {name' : String} {slot : Nat}
    (hslot : table.get? name = some slot) (hslot' : table.get? name' = some slot) :
    name = name' := by
  obtain ⟨place, hplace, rfl⟩ := (h.get?_iff name slot).mp hslot
  obtain ⟨place', hplace', hsame⟩ := (h.get?_iff name' _).mp hslot'
  rw [Nat.succ.inj hsame, hplace'] at hplace
  cases hplace
  rfl

theorem allocateAnonymous_eq (h : Numbers table taken) :
    table.allocateAnonymous =
      if taken.length + 1 < slotLimit then
        .ok (taken.length + 1, ⟨table.slots, taken.length + 1 + 1⟩)
      else .error .slotsExhausted := by
  rw [allocateAnonymous, h.next_eq]

theorem concat_anonymous (h : Numbers table taken) (hroom : taken.length + 1 < slotLimit) :
    Numbers ⟨table.slots, taken.length + 1 + 1⟩ (taken ++ [.anonymous]) where
  next_eq := by rw [List.length_append, List.length_singleton]
  few := by rwa [List.length_append, List.length_singleton]
  get?_iff name slot := by
    simp only [getElem?_concat_eq_some_iff, reduceCtorEq, and_false, or_false]
    exact h.get?_iff name slot

theorem concat_named (h : Numbers table taken) (hname : Call.named name ∉ taken)
    (hroom : taken.length + 1 < slotLimit) :
    Numbers ⟨(name, taken.length + 1) :: table.slots, taken.length + 1 + 1⟩
      (taken ++ [.named name]) where
  next_eq := by rw [List.length_append, List.length_singleton]
  few := by rwa [List.length_append, List.length_singleton]
  get?_iff other slot := by
    simp only [getElem?_concat_eq_some_iff]
    by_cases hother : other = name
    · subst hother
      have hnot : ∀ place, taken[place]? ≠ some (Call.named other) :=
        fun place hplace => hname (List.mem_of_getElem? hplace)
      simp [get?, hnot, eq_comm]
    · have hne : (other == name) = false := beq_eq_false_iff_ne.mpr hother
      simp only [get?, List.lookup_cons, hne, Call.named.injEq, Ne.symm hother, and_false, or_false]
      exact h.get?_iff other slot

/-- A call that takes a slot of its own gets the next number. -/
theorem request_of_new (h : Numbers table taken) (hnew : c.IsNew taken)
    (hroom : taken.length + 1 < slotLimit) :
    ∃ left, table.request c = .ok (taken.length + 1, left) ∧ Numbers left (taken ++ [c]) := by
  cases c with
  | anonymous =>
      refine ⟨_, ?_, h.concat_anonymous hroom⟩
      rw [request, h.allocateAnonymous_eq, if_pos hroom]
  | named name =>
      have hname : Call.named name ∉ taken := hnew.resolve_left Call.noConfusion
      refine ⟨_, ?_, h.concat_named hname hroom⟩
      rw [request, allocate, h.get?_eq_none_iff.mpr hname, h.allocateAnonymous_eq, if_pos hroom]

/-- There is no slot after the last number. -/
theorem request_of_full (h : Numbers table taken) (hnew : c.IsNew taken)
    (hfull : slotLimit ≤ taken.length + 1) : table.request c = .error .slotsExhausted := by
  have hno : ¬ taken.length + 1 < slotLimit := Nat.not_lt.mpr hfull
  cases c with
  | anonymous => rw [request, h.allocateAnonymous_eq, if_neg hno]
  | named name =>
      have hname : Call.named name ∉ taken := hnew.resolve_left Call.noConfusion
      rw [request, allocate, h.get?_eq_none_iff.mpr hname, h.allocateAnonymous_eq, if_neg hno]

/-- A further call with a name gets the number of the first, and changes nothing. -/
theorem request_of_taken (h : Numbers table taken) (hold : ¬ c.IsNew taken) :
    ∃ place, taken[place]? = some c ∧ table.request c = .ok (place + 1, table) := by
  obtain ⟨hc, hmem⟩ := not_or.mp hold
  cases c with
  | anonymous => exact absurd rfl hc
  | named name =>
      obtain ⟨place, hplace⟩ := List.mem_iff_getElem?.mp (Decidable.not_not.mp hmem)
      have hslot := (h.get?_iff name _).mpr ⟨place, hplace, rfl⟩
      exact ⟨place, hplace, request_named hslot⟩

end Numbers

-- ============================================================================
-- Runs
-- ============================================================================

/-- Calls have led to a table that numbers those which take slots, or, if these are more than
    there are slots, to a fault. -/
def Reached (calls : List Call) : Except Fault SlotTable → Prop
  | .ok table => Numbers table (taking calls)
  | .error fault => fault = .slotsExhausted ∧ slotLimit ≤ (taking calls).length

/-- What a call does that a table can be asked: it is answered with its place among the calls
    that take slots, or it is new and the slots are used up. -/
theorem call_cases {table : SlotTable} {calls : List Call} (h : Numbers table (taking calls))
    (c : Call) :
    (∃ place left, call (.ok table) c = (.ok (place + 1), .ok left) ∧
      Numbers left (taking (calls ++ [c])) ∧ (taking (calls ++ [c]))[place]? = some c ∧
      (c.IsNew calls → place + 1 = (taking (calls ++ [c])).length)) ∨
    (call (.ok table) c = (.error .slotsExhausted, .error .slotsExhausted) ∧
      slotLimit ≤ (taking (calls ++ [c])).length) := by
  rw [taking_concat, call_ok]
  by_cases hnew : c.IsNew calls
  · have hnew' := isNew_taking.mpr hnew
    rw [if_pos hnew]
    by_cases hroom : (taking calls).length + 1 < slotLimit
    · obtain ⟨left, hrequest, hleft⟩ := h.request_of_new hnew' hroom
      refine .inl ⟨_, left, by rw [hrequest]; rfl, hleft, ?_, ?_⟩
      · exact List.getElem?_concat_length
      · intro _
        rw [List.length_append, List.length_singleton]
    · refine .inr ⟨?_, ?_⟩
      · rw [h.request_of_full hnew' (Nat.not_lt.mp hroom)]
        rfl
      · rw [List.length_append, List.length_singleton]
        exact Nat.not_lt.mp hroom
  · obtain ⟨place, hplace, hrequest⟩ := h.request_of_taken (mt isNew_taking.mp hnew)
    rw [if_neg hnew]
    exact .inl ⟨place, table, by rw [hrequest]; rfl, h, hplace, fun h => absurd h hnew⟩

theorem Reached.call {calls : List Call} {state : Except Fault SlotTable}
    (h : Reached calls state) (c : Call) : Reached (calls ++ [c]) (SlotTable.call state c).2 := by
  cases state with
  | error fault =>
      have hlength := (taking_isPrefix (List.prefix_append calls [c])).length_le
      exact ⟨h.1, Nat.le_trans h.2 hlength⟩
  | ok table =>
      obtain ⟨place, left, hcall, hleft, -, -⟩ | ⟨hcall, hfull⟩ := call_cases h c
      · rw [hcall]
        exact hleft
      · rw [hcall]
        exact ⟨rfl, hfull⟩

theorem stateAfter_error (fault : Fault) (calls : List Call) :
    stateAfter call (.error fault) calls = .error fault := by
  induction calls with
  | nil => rfl
  | cons c rest ih => exact ih

/-- Names are bound in order by calls. -/
theorem allocateAll_eq (table : SlotTable) (names : List String) :
    table.allocateAll names = stateAfter call (.ok table) (names.map .named) := by
  induction names generalizing table with
  | nil => rfl
  | cons name rest ih =>
      have hcons : stateAfter call (.ok table) ((name :: rest).map .named) =
          stateAfter call ((table.allocate name).map Prod.snd) (rest.map .named) := rfl
      rw [hcons, allocateAll]
      cases table.allocate name with
      | ok result => exact ih result.2
      | error fault => exact (stateAfter_error fault _).symm

theorem reached_tableAfter (params : List String) (calls : List Call) :
    Reached (history params calls) (tableAfter params calls) := by
  have hstart : Reached [] (.ok empty) := numbers_empty
  rw [tableAfter, forMethod, allocateAll_eq, ← stateAfter_append]
  exact stateAfter_invariant (P := Reached) hstart (fun _ _ c h => h.call c) _

/-- The call at a place is answered with a slot. -/
def HandsOut (params : List String) (calls : List Call) (k : Nat) (c : Call) (slot : Nat) : Prop :=
  calls[k]? = some c ∧ (answers params calls)[k]? = some (.ok slot)

section Points

variable {params : List String} {calls : List Call} {k : Nat} {c : Call} {slot : Nat}
  {table : SlotTable}

theorem numbers_of_tableAfter (h : tableAfter params calls = .ok table) :
    Numbers table (taking (history params calls)) := by
  have hreached := reached_tableAfter params calls
  rwa [h] at hreached

theorem tableAfter_eq_ok_iff :
    (∃ table, tableAfter params calls = .ok table) ↔ slotCount params calls < slotLimit := by
  have hreached := reached_tableAfter params calls
  cases h : tableAfter params calls with
  | ok table =>
      rw [h] at hreached
      exact ⟨fun _ => hreached.few, fun _ => ⟨table, rfl⟩⟩
  | error fault =>
      rw [h] at hreached
      refine ⟨?_, fun hfew => absurd hfew (Nat.not_lt.mpr hreached.2)⟩
      rintro ⟨table, htable⟩
      cases htable

theorem tableAfter_eq_error_iff :
    tableAfter params calls = .error .slotsExhausted ↔ slotLimit ≤ slotCount params calls := by
  have hreached := reached_tableAfter params calls
  cases h : tableAfter params calls with
  | ok table =>
      rw [h] at hreached
      refine ⟨?_, fun hfull => absurd hreached.few (Nat.not_lt.mpr hfull)⟩
      intro herror
      cases herror
  | error fault =>
      rw [h] at hreached
      exact ⟨fun _ => hreached.2, fun _ => by rw [hreached.1]⟩

theorem history_take_succ (params : List String) (hc : calls[k]? = some c) :
    history params (calls.take (k + 1)) = history params (calls.take k) ++ [c] := by
  rw [history, history, List.take_add_one, hc, Option.toList_some, List.append_assoc]

/-- The places of calls stay as they are when more calls follow. -/
theorem getElem?_taking_history {calls' : List Call} {place : Nat} (h : calls <+: calls')
    (hplace : (taking (history params calls))[place]? = some c) :
    (taking (history params calls'))[place]? = some c :=
  getElem?_of_isPrefix (taking_isPrefix ((List.prefix_append_right_inj _).mpr h)) hplace

theorem getElem?_answers (params : List String) (hc : calls[k]? = some c) :
    (answers params calls)[k]? = some (call (tableAfter params (calls.take k)) c).1 :=
  getElem?_answersTo hc

/-- Any call of a run is answered with its place among those that take slots, which is the last
    one if the call is one of them, or faults because these are too many. -/
theorem answer_cases (params : List String) (hc : calls[k]? = some c) :
    (∃ place, HandsOut params calls k c (place + 1) ∧
      (taking (history params (calls.take (k + 1))))[place]? = some c ∧
      (c.IsNew (history params (calls.take k)) →
        place + 1 = slotCount params (calls.take (k + 1))) ∧
      slotCount params (calls.take (k + 1)) < slotLimit) ∨
    ((answers params calls)[k]? = some (.error .slotsExhausted) ∧
      slotLimit ≤ slotCount params (calls.take (k + 1))) := by
  have hreached := reached_tableAfter params (calls.take k)
  have hanswer := getElem?_answers params hc
  have hhistory := history_take_succ params hc
  cases h : tableAfter params (calls.take k) with
  | error fault =>
      rw [h] at hreached hanswer
      obtain ⟨rfl, hfull⟩ := hreached
      have hprefix := taking_isPrefix (List.prefix_append (history params (calls.take k)) [c])
      rw [slotCount, hhistory]
      exact .inr ⟨hanswer, Nat.le_trans hfull hprefix.length_le⟩
  | ok table =>
      rw [h] at hreached hanswer
      rw [slotCount, hhistory]
      obtain ⟨place, left, hcall, hleft, hplace, hlast⟩ | ⟨hcall, hfull⟩ := call_cases hreached c
      · rw [hcall] at hanswer
        exact .inl ⟨place, ⟨hc, hanswer⟩, hplace, hlast, hleft.few⟩
      · rw [hcall] at hanswer
        exact .inr ⟨hanswer, hfull⟩

/-- A slot that is handed out is the place of its call, counted from 1. -/
theorem HandsOut.place (h : HandsOut params calls k c slot) :
    ∃ place, (taking (history params (calls.take (k + 1))))[place]? = some c ∧ slot = place + 1 ∧
      slotCount params (calls.take (k + 1)) < slotLimit := by
  obtain ⟨place, ⟨-, hanswer⟩, hplace, -, hfew⟩ | ⟨hanswer, -⟩ := answer_cases params h.1
  · rw [h.2] at hanswer
    exact ⟨place, hplace, by simpa using hanswer, hfew⟩
  · rw [h.2] at hanswer
    cases hanswer

/-- A slot is below the next free one from the point on where its place is filled. -/
theorem slot_lt_next {j place : Nat} (hjk : j ≤ k)
    (hplace : (taking (history params (calls.take j)))[place]? = some c)
    (htable : tableAfter params (calls.take k) = .ok table) : place + 1 < table.next := by
  have hplace' := getElem?_taking_history (List.take_prefix_take_left hjk) hplace
  have hlt := (List.getElem?_eq_some_iff.mp hplace').1
  rw [(numbers_of_tableAfter htable).next_eq]
  exact Nat.succ_lt_succ hlt

end Points

-- ============================================================================
-- Numbering
-- ============================================================================

/-- What the calls of a run learn about slots. -/
structure Numbered (params : List String) (calls : List Call) : Prop where
  /-- The j-th call that takes a slot of its own, parameters counted, is answered with j. -/
  slot_new : ∀ k c j, calls[k]? = some c → c.IsNew (history params (calls.take k)) →
    j = slotCount params (calls.take (k + 1)) → j < 65535 → HandsOut params calls k c j
  /-- A name has slot j if the j-th call that takes a slot binds it, be it for a parameter or
      later, and no slot otherwise. -/
  slot_name : ∀ k table, tableAfter params (calls.take k) = .ok table → ∀ name slot,
    table.get? name = some slot ↔
      ∃ place, (taking (history params (calls.take k)))[place]? = some (.named name) ∧
        slot = place + 1
  /-- A call with a name that has a slot is answered with this slot. -/
  slot_again : ∀ k name table slot, calls[k]? = some (.named name) →
    tableAfter params (calls.take k) = .ok table → table.get? name = some slot →
    HandsOut params calls k (.named name) slot
  /-- A name that is bound keeps its slot. -/
  slot_kept : ∀ j k table table', j ≤ k → tableAfter params (calls.take j) = .ok table →
    tableAfter params (calls.take k) = .ok table' → ∀ name slot,
    table.get? name = some slot → table'.get? name = some slot
  /-- Different names have different slots. -/
  name_inj : ∀ k table, tableAfter params (calls.take k) = .ok table → ∀ name name' slot,
    table.get? name = some slot → table.get? name' = some slot → name = name'
  /-- The slot of an anonymous call is at no point the slot of a name. -/
  slot_hidden : ∀ j slot, HandsOut params calls j .anonymous slot → ∀ k table,
    tableAfter params (calls.take k) = .ok table → ∀ name, table.get? name ≠ some slot
  /-- Slots lie between that of the receiver and the next free one. -/
  slot_range : ∀ j k c slot table, HandsOut params calls j c slot → j < k →
    tableAfter params (calls.take k) = .ok table → 1 ≤ slot ∧ slot ≤ table.next - 1
  slot_name_range : ∀ k table, tableAfter params (calls.take k) = .ok table → ∀ name slot,
    table.get? name = some slot → 1 ≤ slot ∧ slot ≤ table.next - 1
  /-- No slot is that of the receiver, or the last 16-bit number, also in a run that faults. -/
  slot_proper : ∀ k c slot, HandsOut params calls k c slot → slot ≠ receiverSlot ∧ slot < 65535
  next_eq : ∀ k table, tableAfter params (calls.take k) = .ok table →
    table.next = 1 + slotCount params (calls.take k)
  /-- The run faults with the 65535th call that takes a slot, and never otherwise. -/
  goes_on_iff : ∀ k, (∃ table, tableAfter params (calls.take k) = .ok table) ↔
    slotCount params (calls.take k) < 65535
  faults_iff : ∀ k, tableAfter params (calls.take k) = .error .slotsExhausted ↔
    65535 ≤ slotCount params (calls.take k)
  fault_answer : ∀ k c, calls[k]? = some c →
    ((answers params calls)[k]? = some (.error .slotsExhausted) ↔
      65535 ≤ slotCount params (calls.take (k + 1)))

end SlotTable

open SlotTable

/-- For all parameters of a method and all calls for slots after them: slots are numbered from 1
    on in the order in which they are taken, belong to their names for good, and run out with
    the 65535th. -/
theorem slots_numbered (params : List String) (calls : List SlotTable.Call) :
    SlotTable.Numbered params calls where
  slot_new k c j hc hnew hj hlt := by
    obtain ⟨place, hout, -, hlast, -⟩ | ⟨-, hfull⟩ := answer_cases params hc
    · rw [hj, ← hlast hnew]
      exact hout
    · exact absurd (hj ▸ hlt) (Nat.not_lt.mpr hfull)
  slot_name k table htable := (numbers_of_tableAfter htable).get?_iff
  slot_again k name table slot hc htable hslot := by
    refine ⟨hc, ?_⟩
    rw [getElem?_answers params hc, htable, call_ok, request_named hslot]
    rfl
  slot_kept j k table table' hjk htable htable' name slot hslot := by
    obtain ⟨place, hplace, rfl⟩ := ((numbers_of_tableAfter htable).get?_iff name slot).mp hslot
    have hplace' := getElem?_taking_history (List.take_prefix_take_left hjk) hplace
    exact ((numbers_of_tableAfter htable').get?_iff name _).mpr ⟨place, hplace', rfl⟩
  name_inj k table htable name name' slot hslot hslot' :=
    (numbers_of_tableAfter htable).name_inj hslot hslot'
  slot_hidden j slot hout k table htable name hslot := by
    obtain ⟨place, hplace, rfl, -⟩ := hout.place
    obtain ⟨place', hplace', hsame⟩ := ((numbers_of_tableAfter htable).get?_iff name _).mp hslot
    -- whichever point comes first, both places are seen in the list at the end
    have hall := getElem?_taking_history (List.take_prefix _ calls) hplace
    have hall' := getElem?_taking_history (List.take_prefix _ calls) hplace'
    rw [Nat.succ.inj hsame, hall'] at hall
    cases hall
  slot_range j k c slot table hout hjk htable := by
    obtain ⟨place, hplace, rfl, -⟩ := hout.place
    have := slot_lt_next hjk hplace htable
    omega
  slot_name_range k table htable name slot hslot := by
    obtain ⟨place, hplace, rfl⟩ := ((numbers_of_tableAfter htable).get?_iff name slot).mp hslot
    have := slot_lt_next (Nat.le_refl k) hplace htable
    omega
  slot_proper k c slot hout := by
    obtain ⟨place, hplace, rfl, hfew⟩ := hout.place
    have hlt := (List.getElem?_eq_some_iff.mp hplace).1
    exact ⟨Nat.succ_ne_zero place, Nat.lt_of_le_of_lt hlt hfew⟩
  next_eq k table htable := by
    rw [(numbers_of_tableAfter htable).next_eq, Nat.add_comm]
    rfl
  goes_on_iff k := tableAfter_eq_ok_iff
  faults_iff k := tableAfter_eq_error_iff
  fault_answer k c hc := by
    obtain ⟨place, ⟨-, hanswer⟩, -, -, hfew⟩ | ⟨hanswer, hfull⟩ := answer_cases params hc
    · rw [hanswer]
      refine ⟨?_, fun hfull => absurd hfew (Nat.not_lt.mpr hfull)⟩
      intro hfault
      cases hfault
    · exact ⟨fun _ => hfull, fun _ => hanswer⟩

example : answers ["a", "b", "a"] [.named "x", .anonymous, .named "x", .named "b"] =
    [.ok 3, .ok 4, .ok 3, .ok 2] := rfl

end JasminGen
