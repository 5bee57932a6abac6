/-
  JasminGen.Proofs.Actions

  What a run does to the output, apart from frames and reports. If a computation passes
  over no refusal, its requests do not depend on the output. A run is then the computation
  followed by the actions it has asked for, up to the first that the output refuses.

  Main definitions: `Output.actAll`, `Session.performAll`.
  Main results: `Session.run_eq`, `Session.run_output`, `Session.run_frame`.
-/

import JasminGen.Proofs.Lowering.Refusals
import JasminGen.Session

namespace JasminGen

namespace Output

variable {σ ω : Type}

/-- The sink is used, and the open unit stays. -/
theorem useSink_eq {α : Type} (use : Attempt OutputError σ α) (out : Output σ ω) :
    useSink use out =
      ((use out.sink).1.mapError GenError.output, ⟨out.unit, (use out.sink).2⟩) := by
  rw [useSink]
  rcases use out.sink with ⟨_ | _, _⟩ <;> rfl

theorem useSink_congr {α : Type} {use : Attempt OutputError σ α} {sink sink' : σ}
    (h : use sink = use sink') (unit : Option (OpenUnit ω)) :
    useSink use ⟨unit, sink⟩ = useSink use ⟨unit, sink'⟩ := by
  rw [useSink_eq, useSink_eq, h]

variable [Sink σ ω]

/-- Perform one action on the output alone. -/
def act : Action → Attempt GenError (Output σ ω) Unit
  | .openUnit name => openUnit name
  | .closeUnit => closeUnit
  | .code c => perform c.emission
  | .emission e => perform e
  | .report _ => pure ()

/-- Perform actions in order, up to the first that fails. -/
def actAll : List Action → Attempt GenError (Output σ ω) Unit
  | [] => pure ()
  | action :: rest => do
    act action
    actAll rest

theorem actAll_cons_ok {action : Action} {out out' : Output σ ω}
    (h : act action out = (.ok (), out')) (rest : List Action) :
    actAll (action :: rest) out = actAll rest out' := by
  rw [actAll, Attempt.bind_ok h]

theorem actAll_cons_error {action : Action} {out out' : Output σ ω} {reason : GenError}
    (h : act action out = (.error reason, out')) (rest : List Action) :
    actAll (action :: rest) out = (.error reason, out') := by
  rw [actAll, Attempt.bind_error h]

theorem actAll_append_ok {acts : List Action} {out out' : Output σ ω}
    (h : actAll acts out = (.ok (), out')) (rest : List Action) :
    actAll (acts ++ rest) out = actAll rest out' := by
  induction acts generalizing out with
  | nil =>
      obtain ⟨-, rfl⟩ := Prod.mk.inj h
      rfl
  | cons action acts ih =>
      rcases hact : act action out with ⟨_ | _, out₁⟩
      · rw [actAll_cons_error hact] at h
        cases h
      · rw [actAll_cons_ok hact] at h
        rw [List.cons_append, actAll_cons_ok hact]
        exact ih h

end Output

namespace Session

variable {σ ω : Type} [Sink σ ω]

open Output (act actAll)

theorem perform_eq (action : Action) (s : Session σ ω) :
    ∃ reports, perform action s =
      ((act action s.output).1, ⟨s.frame, (act action s.output).2, reports⟩) := by
  cases action with
  | report line => exact ⟨s.reports ++ [line], rfl⟩
  | _ => exact ⟨s.reports, rfl⟩

/-- Perform requests in order, up to the first that fails. -/
def performAll : List Request → Attempt GenError (Session σ ω) Unit
  | [] => pure ()
  | r :: rest => do
    modify fun s => ⟨r.frame, s.output, s.reports⟩
    perform r.action
    performAll rest

theorem performAll_cons (r : Request) (rest : List Request) (s : Session σ ω) :
    performAll (r :: rest) s = match perform r.action ⟨r.frame, s.output, s.reports⟩ with
      | (.ok (), after) => performAll rest after
      | (.error reason, after) => (.error reason, after) := by
  have hframe : (modify fun s => ⟨r.frame, s.output, s.reports⟩ :
      Attempt GenError (Session σ ω) Unit) s = (.ok (), ⟨r.frame, s.output, s.reports⟩) := rfl
  rw [performAll, Attempt.bind_ok hframe]
  rcases hperform : perform r.action ⟨r.frame, s.output, s.reports⟩ with ⟨_ | _, after⟩
  · rw [Attempt.bind_error hperform]
  · rw [Attempt.bind_ok hperform]

theorem performAll_cons_ok {r : Request} {s s' : Session σ ω}
    (h : perform r.action ⟨r.frame, s.output, s.reports⟩ = (.ok (), s')) (rest : List Request) :
    performAll (r :: rest) s = performAll rest s' := by
  rw [performAll_cons, h]

/-- A computation that passes over no refusal is run by performing what it asks for, up to
    the first request that is refused. -/
theorem converse_eq {α : Type} {d : Dialogue α} (h : d.Propagates) (s : Session σ ω) :
    converse d s = match performAll d.requests s with
      | (.ok (), after) => (d.result, ⟨d.frame, after.output, after.reports⟩)
      | (.error reason, after) => (.error (.error reason), after) := by
  induction h generalizing s with
  | done => rfl
  | @ask r next refused accepted ih =>
      have hrequests : (Dialogue.ask r next).requests = r :: (next (.ok ())).requests := rfl
      obtain ⟨reports, hperform⟩ := perform_eq r.action ⟨r.frame, s.output, s.reports⟩
      rw [converse, hrequests, performAll_cons, hperform]
      rcases act r.action s.output with ⟨reason | _, out⟩
      · -- the computation is told of the error, and ends with it
        dsimp only
        rw [refused reason]
        rfl
      · exact ih ⟨r.frame, out, reports⟩

theorem run_eq {α : Type} {m : Gen α} (hm : m.Propagates) (S : Setting) (s : Session σ ω) :
    run S m s = match performAll (m S s.frame).requests s with
      | (.ok (), after) => ((m S s.frame).result, ⟨(m S s.frame).frame, after.output, after.reports⟩)
      | (.error reason, after) => (.error (.error reason), after) :=
  converse_eq (hm S s.frame) s

/-- Where nothing is passed over, a run depends on the outcome of the computation only. -/
theorem run_congr {α : Type} {m m' : Gen α} {S S' : Setting} {s : Session σ ω}
    (hm : m.Propagates) (hm' : m'.Propagates)
    (h : (m' S' s.frame).outcome = (m S s.frame).outcome) : run S' m' s = run S m s := by
  rw [run_eq hm, run_eq hm', Dialogue.requests, Dialogue.result, Dialogue.frame, h]

/-- A run whose requests are all performed ends as its computation does. -/
theorem run_performed {α : Type} {m : Gen α} {S : Setting} {s after : Session σ ω}
    (hm : m.Propagates) (h : performAll (m S s.frame).requests s = (.ok (), after)) :
    run S m s =
      ((m S s.frame).result, ⟨(m S s.frame).frame, after.output, after.reports⟩) := by
  rw [run_eq hm, h]

/-- Requests do to the output what their actions do to it. -/
theorem performAll_output (rs : List Request) (s : Session σ ω) :
    (performAll rs s).1 = (actAll (rs.map Request.action) s.output).1 ∧
      (performAll rs s).2.output = (actAll (rs.map Request.action) s.output).2 := by
  induction rs generalizing s with
  | nil => exact ⟨rfl, rfl⟩
  | cons r rest ih =>
      obtain ⟨reports, hperform⟩ := perform_eq r.action ⟨r.frame, s.output, s.reports⟩
      rw [performAll_cons, hperform, List.map_cons]
      rcases hact : act r.action s.output with ⟨_ | _, out⟩
      · rw [Output.actAll_cons_error hact]
        exact ⟨rfl, rfl⟩
      · rw [Output.actAll_cons_ok hact]
        exact ih _

/-- A run does to the output what the actions of its computation do to it. It ends as they
    do if one of them is refused, and as the computation otherwise. -/
theorem run_output {α : Type} {m : Gen α} (hm : m.Propagates) (S : Setting) (s : Session σ ω) :
    let out := actAll ((m S s.frame).requests.map Request.action) s.output
    (run S m s).2.output = out.2 ∧
      (run S m s).1 = match out.1 with
        | .ok () => (m S s.frame).result
        | .error reason => .error (.error reason) := by
  obtain ⟨hresult, houtput⟩ := performAll_output (m S s.frame).requests s
  rcases hall : performAll (m S s.frame).requests s with ⟨_ | _, after⟩
  · rw [hall] at hresult houtput
    simp only [run_eq hm, hall, ← hresult, ← houtput, and_self]
  · rw [hall] at hresult houtput
    simp only [run_eq hm, hall, ← hresult, ← houtput, and_self]

theorem run_output_ok {α : Type} {S : Setting} {m : Gen α} {s : Session σ ω} {out : Output σ ω}
    (hm : m.Propagates)
    (h : actAll ((m S s.frame).requests.map Request.action) s.output = (.ok (), out)) :
    (run S m s).2.output = out ∧ (run S m s).1 = (m S s.frame).result := by
  obtain ⟨houtput, hresult⟩ := run_output hm S s
  rw [h] at houtput hresult
  exact ⟨houtput, hresult⟩

theorem run_output_error {α : Type} {S : Setting} {m : Gen α} {s : Session σ ω} {out : Output σ ω}
    {reason : GenError} (hm : m.Propagates)
    (h : actAll ((m S s.frame).requests.map Request.action) s.output = (.error reason, out)) :
    (run S m s).1 = .error (.error reason) := by
  obtain ⟨-, hresult⟩ := run_output hm S s
  rw [h] at hresult
  exact hresult

/-- Where performing requests ends early, the frame is that of the request it ends at. -/
theorem performAll_frame (rs : List Request) (s : Session σ ω) :
    (performAll rs s).1 = .ok () ∨ ∃ r ∈ rs, (performAll rs s).2.frame = r.frame := by
  induction rs generalizing s with
  | nil => exact .inl rfl
  | cons r rest ih =>
      obtain ⟨reports, hperform⟩ := perform_eq r.action ⟨r.frame, s.output, s.reports⟩
      rw [performAll_cons, hperform]
      rcases act r.action s.output with ⟨_ | _, out⟩
      · exact .inr ⟨r, List.mem_cons_self, rfl⟩
      · rcases ih ⟨r.frame, out, reports⟩ with hok | ⟨r', hr', hlast⟩
        · exact .inl hok
        · exact .inr ⟨r', List.mem_cons_of_mem _ hr', hlast⟩

/-- A run ends as its computation does, or with an error at one of its requests. -/
theorem run_frame {α : Type} {m : Gen α} (hm : m.Propagates) (S : Setting) (s : Session σ ω) :
    ((run S m s).1 = (m S s.frame).result ∧ (run S m s).2.frame = (m S s.frame).frame) ∨
      ∃ r ∈ (m S s.frame).requests, ∃ reason,
        (run S m s).1 = .error (.error reason) ∧ (run S m s).2.frame = r.frame := by
  have hframe := performAll_frame (m S s.frame).requests s
  rcases hall : performAll (m S s.frame).requests s with ⟨reason | _, after⟩
  · rw [hall] at hframe
    obtain ⟨r, hr, hlast⟩ := hframe.resolve_left (by simp)
    have hrun : run S m s = (.error (.error reason), after) := by simp only [run_eq hm, hall]
    rw [hrun]
    exact .inr ⟨r, hr, reason, rfl, hlast⟩
  · have hrun : run S m s = ((m S s.frame).result,
        ⟨(m S s.frame).frame, after.output, after.reports⟩) := by simp only [run_eq hm, hall]
    rw [hrun]
    exact .inl ⟨rfl, rfl⟩

end Session

end JasminGen
