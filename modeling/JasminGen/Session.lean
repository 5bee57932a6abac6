/-
  JasminGen.Session

  Running computations that generate code against a sink. What a computation asks for
  is performed right away, and it is told how that went.

  Main functions: `Session.run`, `generate`.
-/

import JasminGen.Codegen.Program
import JasminGen.Output.Sink

namespace JasminGen

/-- The state of a run: the frame, the output and the lines reported so far. -/
structure Session (σ ω : Type) where
  frame : Frame
  output : Output σ ω
  reports : List String

namespace Session

variable {σ ω : Type}

/-- A session that has done nothing yet. -/
def start (sink : σ) : Session σ ω := ⟨.initial, ⟨none, sink⟩, []⟩

/-- Use the output of a session. -/
def useOutput (use : Attempt GenError (Output σ ω) Unit) : Attempt GenError (Session σ ω) Unit :=
  fun session =>
    let (result, output) := use session.output
    (result, ⟨session.frame, output, session.reports⟩)

variable [Sink σ ω]

/-- Perform one action. -/
def perform : Action → Attempt GenError (Session σ ω) Unit
  | .openUnit name => useOutput (Output.openUnit name)
  | .closeUnit => useOutput Output.closeUnit
  | .code c => useOutput (Output.perform c.emission)
  | .emission e => useOutput (Output.perform e)
  | .report line => modify fun s => ⟨s.frame, s.output, s.reports ++ [line]⟩

/-- Perform what a computation asks for, and tell it the answer, until it ends. -/
def converse {α : Type} : Dialogue α → Attempt Failure (Session σ ω) α
  | .done result frame, session => (result, ⟨frame, session.output, session.reports⟩)
  | .ask r next, session =>
    let (answer, after) := perform r.action ⟨r.frame, session.output, session.reports⟩
    converse (next answer) after

/-- Run a computation. -/
def run {α : Type} (setting : Setting) (m : Gen α) : Attempt Failure (Session σ ω) α :=
  fun session => converse (m setting session.frame) session

end Session

/-- Write all units of a program into a sink. -/
def generate {σ ω : Type} [Sink σ ω] (setting : Setting) (program : Program) (sink : σ) :
    Except Failure Unit × Session σ ω :=
  Session.run setting program.lower (Session.start sink)

end JasminGen
