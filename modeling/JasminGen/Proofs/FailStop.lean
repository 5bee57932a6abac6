/-
  JasminGen.Proofs.FailStop

  Output failures end a run at once. A sink is watched: its calls are recorded, and one of
  them can be made to fail. Up to that call a run is the one in which nothing fails, the
  failing call is its last, and the error of that call is its result. Writes that are
  interrupted are the exception: they are made again, and the run goes on.

  The computations of the output see how their calls end, and so do those of the lowering,
  so each of them has to pass a failure on. For the output this is `FailStop`, for the
  lowering `Gen.Propagates`.

  Main definitions: `Watched`, `FailStop`. Main result: `failure_stops_run`.
-/

import JasminGen.Proofs.Actions

namespace JasminGen

-- ============================================================================
-- Watched sinks
-- ============================================================================

/-- A call of a sink or of one of its writers. -/
inductive Call (ω : Type) where
  | create (name : String)
  | write (writer : ω) (text : String)
  | flush (writer : ω)
  | install

/-- Whether a call that fails for this reason is made again. -/
def Call.again {ω : Type} : Call ω → OutputError → Bool
  | .write _ _, .interrupted => true
  | _, _ => false

/-- A sink with the calls made to it so far, and the number and the error of the call that
    is to fail, if one is. -/
structure Watched (σ ω : Type) where
  sink : σ
  calls : List (Call ω)
  failure : Option (Nat × OutputError)

namespace Watched

variable {σ ω : Type}

/-- Watch a sink on which no call has been made. -/
def start (sink : σ) (failure : Option (Nat × OutputError)) : Watched σ ω := ⟨sink, [], failure⟩

/-- Why the next call fails, if it is to fail. -/
def nextFailure? (w : Watched σ ω) : Option OutputError :=
  match w.failure with
  | some (k, reason) => if w.calls.length = k then some reason else none
  | none => none

/-- Make a call to the sink, unless it is to fail. -/
def call {α : Type} (c : Call ω) (use : Attempt OutputError σ α) :
    Attempt OutputError (Watched σ ω) α := fun w =>
  match w.nextFailure? with
  | some reason => (.error reason, ⟨w.sink, w.calls ++ [c], w.failure⟩)
  | none => ((use w.sink).1, ⟨(use w.sink).2, w.calls ++ [c], w.failure⟩)

/-- How many calls are still to fail. -/
def pending (w : Watched σ ω) : Nat :=
  match w.failure with
  | some (k, _) => if w.calls.length ≤ k then 1 else 0
  | none => 0

theorem nextFailure?_none {w : Watched σ ω} (h : w.failure = none) : w.nextFailure? = none := by
  rw [nextFailure?, h]

theorem call_refused {α : Type} {w : Watched σ ω} {reason : OutputError}
    (h : w.nextFailure? = some reason) (c : Call ω) (use : Attempt OutputError σ α) :
    call c use w = (.error reason, ⟨w.sink, w.calls ++ [c], w.failure⟩) := by
  rw [call, h]

theorem call_made {α : Type} {w : Watched σ ω} (h : w.nextFailure? = none) (c : Call ω)
    (use : Attempt OutputError σ α) :
    call c use w = ((use w.sink).1, ⟨(use w.sink).2, w.calls ++ [c], w.failure⟩) := by
  rw [call, h]

/-- A call that was to fail is not to fail any more. -/
theorem pending_refused {w : Watched σ ω} {reason : OutputError} (c : Call ω)
    (h : w.nextFailure? = some reason) :
    pending ⟨w.sink, w.calls ++ [c], w.failure⟩ < w.pending := by
  obtain ⟨sink, calls, failure⟩ := w
  cases failure with
  | none => cases h
  | some failure =>
      obtain ⟨k, reason'⟩ := failure
      rw [nextFailure?] at h
      dsimp only at h
      split at h
      · next hdue =>
          subst hdue
          simp [pending]
      · cases h

theorem pending_made (sink : σ) (w : Watched σ ω) (c : Call ω) :
    pending ⟨sink, w.calls ++ [c], w.failure⟩ ≤ w.pending := by
  obtain ⟨sink', calls, failure⟩ := w
  cases failure with
  | none => exact Nat.le_refl _
  | some failure =>
      simp only [pending, List.length_append, List.length_singleton]
      split <;> split <;> omega

theorem interruptions_call [Sink σ ω] {writer : ω} {text : String} {w w' : Watched σ ω}
    (h : call (.write writer text) (Sink.write writer text) w = (.error .interrupted, w')) :
    Sink.interruptions w'.sink + w'.pending < Sink.interruptions w.sink + w.pending := by
  cases hnext : w.nextFailure? with
  | some reason =>
      rw [call_refused hnext] at h
      obtain ⟨-, rfl⟩ := Prod.mk.inj h
      exact Nat.add_lt_add_left (pending_refused _ hnext) _
  | none =>
      rw [call_made hnext] at h
      obtain ⟨hresult, rfl⟩ := Prod.mk.inj h
      have hlt := Sink.interruptions_lt (Prod.ext hresult rfl : Sink.write writer text w.sink = (_, _))
      exact Nat.add_lt_add_of_lt_of_le hlt (pending_made _ w _)

instance [Sink σ ω] : Sink (Watched σ ω) ω where
  createUnit name := call (.create name) (Sink.createUnit name)
  write writer text := call (.write writer text) (Sink.write writer text)
  flush writer := call (.flush writer) (Sink.flush writer)
  installSupport := call .install Sink.installSupport
  interruptions w := Sink.interruptions w.sink + w.pending
  interruptions_lt := interruptions_call

/-- None of the calls from number `start` on, `count` of them, is to fail. -/
def Spares (failure : Option (Nat × OutputError)) (start count : Nat) : Prop :=
  ∀ k reason, failure = some (k, reason) → k < start ∨ start + count ≤ k

/-- A call that is not to fail is made. -/
theorem call_spared {α : Type} {calls : List (Call ω)} {failure : Option (Nat × OutputError)}
    {count : Nat} (h : Spares failure calls.length (count + 1)) (c : Call ω)
    (use : Attempt OutputError σ α) (sink : σ) :
    call c use ⟨sink, calls, failure⟩ = ((use sink).1, ⟨(use sink).2, calls ++ [c], failure⟩) := by
  refine call_made ?_ c use
  cases failure with
  | none => rfl
  | some failure =>
      obtain ⟨k, reason⟩ := failure
      have hother : calls.length ≠ k := by
        have hk := h k reason rfl
        omega
      exact if_neg hother

/-- The call that is to fail fails, and does nothing to the sink. -/
theorem call_due {α : Type} (sink : σ) (calls : List (Call ω)) (reason : OutputError) (c : Call ω)
    (use : Attempt OutputError σ α) :
    call c use ⟨sink, calls, some (calls.length, reason)⟩ =
      (.error reason, ⟨sink, calls ++ [c], some (calls.length, reason)⟩) :=
  call_refused (w := ⟨sink, calls, some (calls.length, reason)⟩) (if_pos rfl) c use

theorem spares_none (start count : Nat) : Spares none start count := nofun

theorem spares_past {k start : Nat} (reason : OutputError) (count : Nat) (h : k < start) :
    Spares (some (k, reason)) start count := by
  rintro _ _ ⟨⟩
  exact .inl h

theorem spares_later {k start count : Nat} (reason : OutputError) (h : start + count ≤ k) :
    Spares (some (k, reason)) start count := by
  rintro _ _ ⟨⟩
  exact .inr h

theorem Spares.left {failure : Option (Nat × OutputError)} {start m n : Nat}
    (h : Spares failure start (m + n)) : Spares failure start m := by
  intro k reason hk
  have := h k reason hk
  omega

theorem Spares.right {failure : Option (Nat × OutputError)} {start m n : Nat}
    (h : Spares failure start (m + n)) : Spares failure (start + m) n := by
  intro k reason hk
  have := h k reason hk
  omega

end Watched

-- ============================================================================
-- Computations that stop at the failing call
-- ============================================================================

section

open Watched (Spares)

variable {σ ω : Type}

/-- What a computation does on an output: how it ends, what it leaves, and the calls it
    makes. -/
structure Course (σ ω α : Type) where
  result : Except GenError α
  unit : Option (OpenUnit ω)
  sink : σ
  calls : List (Call ω)

/-- From this unit and sink the computation takes its course, whatever calls were made
    before it, if none of its own is to fail. One that is to fail ends it with the error of
    the call, and no other call follows. One that is made again only comes twice. -/
structure Takes {α : Type} (use : Attempt GenError (Output (Watched σ ω) ω) α)
    (unit : Option (OpenUnit ω)) (sink : σ) (course : Course σ ω α) : Prop where
  spared : ∀ calls failure, Spares failure calls.length course.calls.length →
    use ⟨unit, ⟨sink, calls, failure⟩⟩ =
      (course.result, ⟨course.unit, ⟨course.sink, calls ++ course.calls, failure⟩⟩)
  stopped : ∀ calls i c reason, course.calls[i]? = some c → c.again reason = false →
    ∃ unit' sink', use ⟨unit, ⟨sink, calls, some (calls.length + i, reason)⟩⟩ =
      (.error (.output reason),
        ⟨unit', ⟨sink', calls ++ course.calls.take (i + 1), some (calls.length + i, reason)⟩⟩)
  repeated : ∀ calls i c reason, course.calls[i]? = some c → c.again reason = true →
    use ⟨unit, ⟨sink, calls, some (calls.length + i, reason)⟩⟩ =
      (course.result, ⟨course.unit, ⟨course.sink,
        calls ++ (course.calls.take (i + 1) ++ course.calls.drop i),
        some (calls.length + i, reason)⟩⟩)

/-- From every unit and sink the computation takes some course. -/
def FailStop {α : Type} (use : Attempt GenError (Output (Watched σ ω) ω) α) : Prop :=
  ∀ unit sink, ∃ course, Takes use unit sink course

namespace FailStop

variable {α β : Type}

/-- A computation that leaves the sink alone. -/
theorem quiet {use : Attempt GenError (Output (Watched σ ω) ω) α}
    (h : ∀ unit, ∃ result unit', ∀ w, use ⟨unit, w⟩ = (result, ⟨unit', w⟩)) : FailStop use := by
  intro unit sink
  obtain ⟨result, unit', huse⟩ := h unit
  refine ⟨⟨result, unit', sink, []⟩, ?_, ?_, ?_⟩
  · intro calls failure _
    rw [huse, List.append_nil]
  · intro calls i c reason hcall
    cases hcall
  · intro calls i c reason hcall
    cases hcall

theorem pure (a : α) :
    FailStop (Pure.pure a : Attempt GenError (Output (Watched σ ω) ω) α) :=
  quiet fun unit => ⟨.ok a, unit, fun _ => rfl⟩

theorem throw (failure : GenError) :
    FailStop (MonadExcept.throw failure : Attempt GenError (Output (Watched σ ω) ω) α) :=
  quiet fun unit => ⟨.error failure, unit, fun _ => rfl⟩

theorem setUnit (unit : Option (OpenUnit ω)) :
    FailStop (modify fun out => ⟨unit, out.sink⟩ :
      Attempt GenError (Output (Watched σ ω) ω) Unit) :=
  quiet fun _ => ⟨.ok (), unit, fun _ => rfl⟩

/-- A computation that goes by the open unit, and not by the sink. -/
theorem get_bind {next : Output (Watched σ ω) ω → Attempt GenError (Output (Watched σ ω) ω) α}
    (h : ∀ out, FailStop (next out)) (hunit : ∀ unit w w', next ⟨unit, w⟩ = next ⟨unit, w'⟩) :
    FailStop (get >>= next) := by
  intro unit sink
  obtain ⟨course, hcourse⟩ := h ⟨unit, ⟨sink, [], none⟩⟩ unit sink
  have hrun : ∀ w, (get >>= next) ⟨unit, w⟩ = next ⟨unit, ⟨sink, [], none⟩⟩ ⟨unit, w⟩ :=
    fun w => congrFun (hunit unit w ⟨sink, [], none⟩) ⟨unit, w⟩
  refine ⟨course, ?_, ?_, ?_⟩
  · intro calls failure hspared
    rw [hrun]
    exact hcourse.spared calls failure hspared
  · intro calls i c reason hcall hagain
    rw [hrun]
    exact hcourse.stopped calls i c reason hcall hagain
  · intro calls i c reason hcall hagain
    rw [hrun]
    exact hcourse.repeated calls i c reason hcall hagain

/-- Nothing follows a computation that fails. -/
theorem takes_bind_error {use : Attempt GenError (Output (Watched σ ω) ω) α}
    {next : α → Attempt GenError (Output (Watched σ ω) ω) β} {unit unit' : Option (OpenUnit ω)}
    {sink sink' : σ} {failure : GenError} {made : List (Call ω)}
    (h : Takes use unit sink ⟨.error failure, unit', sink', made⟩) :
    Takes (use >>= next) unit sink ⟨.error failure, unit', sink', made⟩ := by
  refine ⟨?_, ?_, ?_⟩
  · intro calls failure hspared
    exact Attempt.bind_error (h.spared calls failure hspared)
  · intro calls i c reason hcall hagain
    obtain ⟨unit', sink', hstop⟩ := h.stopped calls i c reason hcall hagain
    exact ⟨unit', sink', Attempt.bind_error hstop⟩
  · intro calls i c reason hcall hagain
    exact Attempt.bind_error (h.repeated calls i c reason hcall hagain)

/-- The number of a call after others, counted from where they end. -/
theorem index_later {calls made : List (Call ω)} {i : Nat} (hi : made.length ≤ i) :
    (calls ++ made).length + (i - made.length) = calls.length + i := by
  rw [List.length_append]
  omega

section

variable {use : Attempt GenError (Output (Watched σ ω) ω) α}
  {next : α → Attempt GenError (Output (Watched σ ω) ω) β} {unit unit' : Option (OpenUnit ω)}
  {sink sink' : σ} {a : α} {made : List (Call ω)} {course : Course σ ω β}
  (h : Takes use unit sink ⟨.ok a, unit', sink', made⟩)
  (hnext : Takes (next a) unit' sink' course)
include h

/-- A call that comes after the first course leaves that course alone. -/
theorem bind_later {i : Nat} (hi : made.length ≤ i) (calls : List (Call ω))
    (reason : OutputError) :
    (use >>= next) ⟨unit, ⟨sink, calls, some (calls.length + i, reason)⟩⟩ =
      next a ⟨unit', ⟨sink', calls ++ made,
        some ((calls ++ made).length + (i - made.length), reason)⟩⟩ := by
  have hfirst := h.spared calls _ (Watched.spares_later reason (Nat.add_le_add_left hi _))
  rw [index_later hi, Attempt.bind_ok hfirst]

include hnext

theorem bind_stopped (calls : List (Call ω)) {i : Nat} {c : Call ω} {reason : OutputError}
    (hcall : (made ++ course.calls)[i]? = some c) (hagain : c.again reason = false) :
    ∃ unit₁ sink₁, (use >>= next) ⟨unit, ⟨sink, calls, some (calls.length + i, reason)⟩⟩ =
      (.error (.output reason), ⟨unit₁, ⟨sink₁, calls ++ (made ++ course.calls).take (i + 1),
        some (calls.length + i, reason)⟩⟩) := by
  rcases Nat.lt_or_ge i made.length with hi | hi
  · rw [List.getElem?_append_left hi] at hcall
    obtain ⟨unit₁, sink₁, hstop⟩ := h.stopped calls i c reason hcall hagain
    refine ⟨unit₁, sink₁, ?_⟩
    rw [Attempt.bind_error hstop, List.take_append_of_le_length hi]
  · rw [List.getElem?_append_right hi] at hcall
    obtain ⟨unit₁, sink₁, hstop⟩ := hnext.stopped (calls ++ made) _ c reason hcall hagain
    have htake : made.take (i + 1) = made := List.take_of_length_le (by omega)
    refine ⟨unit₁, sink₁, ?_⟩
    rw [bind_later h hi, hstop, index_later hi, List.take_append, htake, List.append_assoc,
      Nat.sub_add_comm hi]

theorem bind_repeated (calls : List (Call ω)) {i : Nat} {c : Call ω} {reason : OutputError}
    (hcall : (made ++ course.calls)[i]? = some c) (hagain : c.again reason = true) :
    (use >>= next) ⟨unit, ⟨sink, calls, some (calls.length + i, reason)⟩⟩ =
      (course.result, ⟨course.unit, ⟨course.sink,
        calls ++ ((made ++ course.calls).take (i + 1) ++ (made ++ course.calls).drop i),
        some (calls.length + i, reason)⟩⟩) := by
  rcases Nat.lt_or_ge i made.length with hi | hi
  · rw [List.getElem?_append_left hi] at hcall
    have hpast : Spares (some (calls.length + i, reason))
        (calls ++ (made.take (i + 1) ++ made.drop i)).length course.calls.length := by
      apply Watched.spares_past
      simp only [List.length_append, List.length_take, List.length_drop]
      omega
    rw [Attempt.bind_ok (h.repeated calls i c reason hcall hagain), hnext.spared _ _ hpast,
      List.take_append_of_le_length hi, List.drop_append_of_le_length (Nat.le_of_lt hi)]
    simp only [List.append_assoc]
  · rw [List.getElem?_append_right hi] at hcall
    have hrest := hnext.repeated (calls ++ made) _ c reason hcall hagain
    have htake : made.take (i + 1) = made := List.take_of_length_le (by omega)
    rw [bind_later h hi, hrest, index_later hi, List.take_append, htake, List.drop_append,
      List.drop_eq_nil_of_le hi, Nat.sub_add_comm hi]
    simp only [List.append_assoc, List.nil_append]

/-- One course after the other. The failing call is in the first or in the second. -/
theorem takes_bind_ok : Takes (use >>= next) unit sink
    ⟨course.result, course.unit, course.sink, made ++ course.calls⟩ := by
  refine ⟨?_, ?_, ?_⟩
  · intro calls failure hspared
    rw [List.length_append] at hspared
    have hright : Spares failure (calls ++ made).length course.calls.length := by
      rw [List.length_append]
      exact hspared.right
    rw [Attempt.bind_ok (h.spared calls failure hspared.left), hnext.spared _ _ hright,
      List.append_assoc]
  · intro calls i c reason hcall hagain
    exact bind_stopped h hnext calls hcall hagain
  · intro calls i c reason hcall hagain
    exact bind_repeated h hnext calls hcall hagain

end

theorem bind {use : Attempt GenError (Output (Watched σ ω) ω) α}
    {next : α → Attempt GenError (Output (Watched σ ω) ω) β} (huse : FailStop use)
    (hnext : ∀ a, FailStop (next a)) : FailStop (use >>= next) := by
  intro unit sink
  obtain ⟨⟨failure | a, unit', sink', made⟩, h⟩ := huse unit sink
  · exact ⟨_, takes_bind_error h⟩
  · obtain ⟨course, hcourse⟩ := hnext a unit' sink'
    exact ⟨_, takes_bind_ok h hcourse⟩

/-- A call that is never made again. -/
theorem call {c : Call ω} (hc : ∀ reason, c.again reason = false) (use : Attempt OutputError σ α) :
    FailStop (Output.useSink (Watched.call c use) :
      Attempt GenError (Output (Watched σ ω) ω) α) := by
  intro unit sink
  refine ⟨⟨(use sink).1.mapError .output, unit, (use sink).2, [c]⟩, ?_, ?_, ?_⟩
  · intro calls failure hspared
    rw [Output.useSink_eq, Watched.call_spared hspared]
  · intro calls i c' reason hcall _
    obtain rfl : i = 0 := by
      have hi := (List.getElem?_eq_some_iff.mp hcall).1
      simpa using hi
    refine ⟨unit, sink, ?_⟩
    rw [Nat.add_zero, Output.useSink_eq, Watched.call_due]
    rfl
  · intro calls i c' reason hcall hagain
    obtain rfl : c' = c := by
      have hmem := List.mem_of_getElem? hcall
      simpa using hmem
    rw [hc] at hagain
    cases hagain

end FailStop

-- ============================================================================
-- Runs
-- ============================================================================

variable [Sink σ ω]

namespace Watched

variable {writer : ω} {text : String} {sink sink' : σ} {calls : List (Call ω)}
  {failure : Option (Nat × OutputError)} {reason : OutputError} {count : Nat}

/-- A write that the sink itself does not interrupt. -/
theorem writeAll_spared (hwrite : (Sink.write writer text sink).1 ≠ .error .interrupted)
    (h : Spares failure calls.length (count + 1)) :
    Sink.writeAll writer text (⟨sink, calls, failure⟩ : Watched σ ω) =
      ((Sink.write writer text sink).1,
        ⟨(Sink.write writer text sink).2, calls ++ [.write writer text], failure⟩) := by
  have hcall := call_spared h (.write writer text) (Sink.write writer text) sink
  rw [Sink.writeAll_of_ne]
  · exact hcall
  · intro hagain
    exact hwrite ((congrArg Prod.fst hcall).symm.trans hagain)

/-- A write that the sink itself interrupts. -/
theorem writeAll_spared_again
    (hwrite : Sink.write writer text sink = (.error .interrupted, sink'))
    (h : Spares failure calls.length (count + 1)) :
    Sink.writeAll writer text (⟨sink, calls, failure⟩ : Watched σ ω) =
      Sink.writeAll writer text (⟨sink', calls ++ [.write writer text], failure⟩ : Watched σ ω) := by
  have hcall := call_spared h (.write writer text) (Sink.write writer text) sink
  rw [hwrite] at hcall
  exact Sink.writeAll_interrupted hcall

theorem writeAll_due (hreason : reason ≠ .interrupted) :
    Sink.writeAll writer text (⟨sink, calls, some (calls.length, reason)⟩ : Watched σ ω) =
      (.error reason,
        ⟨sink, calls ++ [.write writer text], some (calls.length, reason)⟩) := by
  have hcall := call_due sink calls reason (.write writer text)
    (Sink.write writer text : Attempt _ σ Unit)
  rw [Sink.writeAll_of_ne]
  · exact hcall
  · intro hagain
    exact hreason (Except.error.inj ((congrArg Prod.fst hcall).symm.trans hagain))

theorem writeAll_due_again :
    Sink.writeAll writer text (⟨sink, calls, some (calls.length, .interrupted)⟩ : Watched σ ω) =
      Sink.writeAll writer text (⟨sink, calls ++ [.write writer text],
        some (calls.length, .interrupted)⟩ : Watched σ ω) :=
  Sink.writeAll_interrupted (call_due sink calls .interrupted (.write writer text) _)

end Watched

namespace Output

theorem again_write {writer : ω} {text : String} {reason : OutputError} :
    (Call.write writer text).again reason = true ↔ reason = .interrupted := by
  cases reason <;> simp [Call.again]

/-- If a later attempt is to fail, the first one is made. -/
theorem useSink_writeAll_again {writer : ω} {text : String} {sink sink₁ : σ}
    (hwrite : Sink.write writer text sink = (.error .interrupted, sink₁))
    (unit : Option (OpenUnit ω)) (calls : List (Call ω)) (i : Nat) (reason : OutputError) :
    useSink (Sink.writeAll writer text)
        ⟨unit, (⟨sink, calls, some (calls.length + (i + 1), reason)⟩ : Watched σ ω)⟩ =
      useSink (Sink.writeAll writer text) ⟨unit, ⟨sink₁, calls ++ [.write writer text],
        some ((calls ++ [Call.write writer text]).length + i, reason)⟩⟩ := by
  have hindex : (calls ++ [Call.write writer text]).length + i = calls.length + (i + 1) := by
    rw [List.length_append, List.length_singleton]
    omega
  rw [hindex]
  have hlater : Spares (some (calls.length + (i + 1), reason)) calls.length (0 + 1) :=
    Watched.spares_later reason (by omega)
  exact useSink_congr (Watched.writeAll_spared_again hwrite hlater) unit

/-- A write makes its first attempt, and others only if the sink interrupts it. -/
theorem takes_writeAll {writer : ω} {text : String} {unit unit' : Option (OpenUnit ω)}
    {sink sink' : σ} {result : Except GenError Unit} {more : List (Call ω)}
    (hspared : ∀ calls failure, Spares failure calls.length (more.length + 1) →
      useSink (Sink.writeAll writer text) ⟨unit, (⟨sink, calls, failure⟩ : Watched σ ω)⟩ =
        (result, ⟨unit', ⟨sink', calls ++ .write writer text :: more, failure⟩⟩))
    (hmore : ∀ (i : Nat) c, more[i]? = some c → ∃ sink₁,
      Sink.write writer text sink = (.error .interrupted, sink₁) ∧
        Takes (useSink (Sink.writeAll writer text)) unit sink₁ ⟨result, unit', sink', more⟩) :
    Takes (useSink (Sink.writeAll writer text)) unit sink
      ⟨result, unit', sink', .write writer text :: more⟩ := by
  refine ⟨hspared, ?_, ?_⟩
  · intro calls i c reason hcall hagain
    cases i with
    | zero =>
        obtain rfl : Call.write writer text = c := Option.some.inj hcall
        have hreason : reason ≠ .interrupted := by
          rintro rfl
          cases hagain
        refine ⟨unit, sink, ?_⟩
        rw [Nat.add_zero, useSink_eq, Watched.writeAll_due hreason]
        rfl
    | succ i =>
        obtain ⟨sink₁, hwrite, hrest⟩ := hmore i c hcall
        obtain ⟨unit₂, sink₂, hstop⟩ :=
          hrest.stopped (calls ++ [.write writer text]) i c reason hcall hagain
        refine ⟨unit₂, sink₂, ?_⟩
        rw [useSink_writeAll_again hwrite, hstop]
        simp [Nat.add_assoc, Nat.add_comm 1 i]
  · intro calls i c reason hcall hagain
    cases i with
    | zero =>
        obtain rfl : Call.write writer text = c := Option.some.inj hcall
        obtain rfl := again_write.mp hagain
        have hpast : Spares (some (calls.length, .interrupted))
            (calls ++ [Call.write writer text]).length (more.length + 1) := by
          apply Watched.spares_past
          simp
        rw [Nat.add_zero, useSink_congr Watched.writeAll_due_again, hspared _ _ hpast]
        simp
    | succ i =>
        obtain ⟨sink₁, hwrite, hrest⟩ := hmore i c hcall
        have hrepeated := hrest.repeated (calls ++ [.write writer text]) i c reason hcall hagain
        rw [useSink_writeAll_again hwrite, hrepeated]
        simp [Nat.add_assoc, Nat.add_comm 1 i]

theorem failStop_writeAll (writer : ω) (text : String) :
    FailStop (useSink (Sink.writeAll writer text) :
      Attempt GenError (Output (Watched σ ω) ω) Unit) := by
  intro unit sink
  -- each attempt that the sink interrupts leaves fewer interruptions
  induction hn : Sink.interruptions sink using Nat.strongRecOn generalizing sink with
  | ind n ih =>
      subst hn
      by_cases hagain : (Sink.write writer text sink).1 = .error .interrupted
      · have hwrite : Sink.write writer text sink =
            (.error .interrupted, (Sink.write writer text sink).2) := Prod.ext hagain rfl
        obtain ⟨course, hcourse⟩ := ih _ (Sink.interruptions_lt hwrite) _ rfl
        refine ⟨⟨course.result, course.unit, course.sink, .write writer text :: course.calls⟩,
          takes_writeAll ?_ fun i c _ => ⟨_, hwrite, hcourse⟩⟩
        intro calls failure hspared
        have hright : Spares failure (calls ++ [Call.write writer text]).length
            course.calls.length := by
          rw [List.length_append, List.length_singleton]
          rw [Nat.add_comm] at hspared
          exact hspared.right
        rw [useSink_congr (Watched.writeAll_spared_again hwrite hspared),
          hcourse.spared _ _ hright, List.append_assoc]
        rfl
      · refine ⟨⟨(Sink.write writer text sink).1.mapError .output, unit,
          (Sink.write writer text sink).2, [.write writer text]⟩, takes_writeAll ?_ nofun⟩
        intro calls failure hspared
        rw [useSink_eq, Watched.writeAll_spared hagain hspared]

theorem failStop_openUnit (name : String) :
    FailStop (openUnit name : Attempt GenError (Output (Watched σ ω) ω) Unit) := by
  refine .get_bind ?_ fun _ _ _ => rfl
  intro out
  cases out.unit with
  | some u => exact .throw _
  | none => exact (FailStop.call (fun _ => rfl) _).bind fun writer => .setUnit _

theorem failStop_closeUnit :
    FailStop (closeUnit : Attempt GenError (Output (Watched σ ω) ω) Unit) := by
  refine .get_bind ?_ fun _ _ _ => rfl
  intro out
  cases out.unit with
  | none => exact .throw _
  | some u => exact (FailStop.setUnit none).bind fun _ => .call (fun _ => rfl) _

theorem failStop_writeLines (writer : ω) (lines : List String) :
    FailStop (writeLines writer lines : Attempt GenError (Output (Watched σ ω) ω) Unit) := by
  induction lines with
  | nil => exact .pure ()
  | cons line rest ih => exact (failStop_writeAll writer line).bind fun _ => ih

theorem failStop_emitText (text : String) :
    FailStop (emitText text : Attempt GenError (Output (Watched σ ω) ω) Unit) := by
  refine .get_bind ?_ fun _ _ _ => rfl
  intro out
  cases out.unit with
  | none => exact .throw _
  | some u => exact (failStop_writeLines u.writer _).bind fun _ => .call (fun _ => rfl) _

theorem failStop_emitTexts (texts : List String) :
    FailStop (emitTexts texts : Attempt GenError (Output (Watched σ ω) ω) Unit) := by
  induction texts with
  | nil => exact .pure ()
  | cons text rest ih => exact (failStop_emitText text).bind fun _ => ih

theorem failStop_act (action : Action) :
    FailStop (act action : Attempt GenError (Output (Watched σ ω) ω) Unit) := by
  cases action with
  | openUnit name => exact failStop_openUnit name
  | closeUnit => exact failStop_closeUnit
  | code c => exact failStop_emitTexts c.emission.texts
  | emission e => exact failStop_emitTexts e.texts
  | report line => exact .pure ()

theorem failStop_actAll (acts : List Action) :
    FailStop (actAll acts : Attempt GenError (Output (Watched σ ω) ω) Unit) := by
  induction acts with
  | nil => exact .pure ()
  | cons action rest ih => exact (failStop_act action).bind fun _ => ih

end Output

/-- The calls that a run on a program makes to a sink, and its result. One of the calls may
    be made to fail. -/
def watchedRun (setting : Setting) (program : Program) (sink : σ)
    (failure : Option (Nat × OutputError)) : List (Call ω) × Except Failure Unit :=
  let run := generate setting program (Watched.start sink failure)
  (run.2.output.sink.calls, run.1)

theorem watchedRun_eq (setting : Setting) (program : Program) (sink : σ)
    (failure : Option (Nat × OutputError)) :
    let outcome := program.lower setting .initial
    let out := Output.actAll (outcome.requests.map Request.action)
      (⟨none, Watched.start sink failure⟩ : Output (Watched σ ω) ω)
    watchedRun setting program sink failure = (out.2.sink.calls, match out.1 with
      | .ok () => outcome.result
      | .error reason => .error (.error reason)) := by
  intro outcome out
  obtain ⟨houtput, hresult⟩ :=
    Session.run_output program.propagates_lower setting
      (Session.start (Watched.start sink failure : Watched σ ω))
  exact Prod.ext (congrArg (fun out => out.sink.calls) houtput) hresult

theorem watchedRun_of_actAll {setting : Setting} {program : Program} {sink sink' : σ}
    {failure failure' : Option (Nat × OutputError)} {result : Except GenError Unit}
    {unit : Option (OpenUnit ω)} {calls : List (Call ω)} :
    Output.actAll ((program.lower setting .initial).requests.map Request.action)
      ⟨none, (⟨sink, [], failure⟩ : Watched σ ω)⟩ = (result, ⟨unit, ⟨sink', calls, failure'⟩⟩) →
    watchedRun setting program sink failure = (calls, match result with
      | .ok () => (program.lower setting .initial).result
      | .error reason => .error (.error reason)) := by
  intro h
  rw [watchedRun_eq, Watched.start, h]

/-- Output failures end a run at once. Let `run` be the calls that a run makes to a sink, and
    its result. If call number `k` is made to fail and there are that many, the run makes the
    same calls up to this one, with the same arguments, makes no other call, and ends with
    the error of the call. If there are not that many, nothing changes. The one error that
    does not end a run is the interruption of a write: the write is made again, and the run
    goes on as if nothing had happened. -/
theorem failure_stops_run (setting : Setting) (program : Program) (sink : σ) (k : Nat)
    (reason : OutputError) :
    let run := watchedRun setting program sink none
    let failed := watchedRun setting program sink (some (k, reason))
    (run.1.length ≤ k → failed = run) ∧
    (∀ c, run.1[k]? = some c → c.again reason = false →
      failed = (run.1.take (k + 1), .error (.error (.output reason)))) ∧
    (∀ c, run.1[k]? = some c → c.again reason = true →
      failed = (run.1.take (k + 1) ++ run.1.drop k, run.2)) := by
  let acts := (program.lower setting .initial).requests.map Request.action
  have hall : FailStop (Output.actAll acts : Attempt GenError (Output (Watched σ ω) ω) Unit) :=
    Output.failStop_actAll acts
  obtain ⟨course, hcourse⟩ := hall none sink
  have hindex : some (([] : List (Call ω)).length + k, reason) = some (k, reason) := by
    rw [List.length_nil, Nat.zero_add]
  intro run failed
  have hrun : run = _ := watchedRun_of_actAll (hcourse.spared [] none (Watched.spares_none _ _))
  rw [hrun]
  refine ⟨?_, ?_, ?_⟩
  · intro hle
    have hspared : Spares (some (k, reason)) ([] : List (Call ω)).length course.calls.length :=
      Watched.spares_later reason (by simpa using hle)
    exact watchedRun_of_actAll (hcourse.spared [] _ hspared)
  · intro c hc hagain
    obtain ⟨unit', sink', hstop⟩ := hcourse.stopped [] k c reason hc hagain
    rw [hindex] at hstop
    exact watchedRun_of_actAll hstop
  · intro c hc hagain
    have hrepeated := hcourse.repeated [] k c reason hc hagain
    rw [hindex] at hrepeated
    exact watchedRun_of_actAll hrepeated

end

end JasminGen
