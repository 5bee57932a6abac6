/-
  JasminGen.Output.Recorder

  A sink that records the calls made to it. It can be told to fail at one of them.

  Main definitions: `Event`, `Recorder`.
-/

import JasminGen.Output.Sink

namespace JasminGen

/-- The calls of a sink and of its writers. -/
inductive CallKind where
  | create
  | write
  | flush
  | install
  deriving DecidableEq

/-- A recorded call. -/
inductive Event where
  | create (name : String)
  | write (text : String)
  | flush
  | install
  | fail (kind : CallKind)
  deriving DecidableEq

def Event.kind : Event → CallKind
  | .create _ => .create
  | .write _ => .write
  | .flush => .flush
  | .install => .install
  | .fail kind => kind

/-- The calls so far, the latest first, and the number of the call that fails. -/
structure Recorder where
  reversed : List Event
  count : Nat
  failAt : Option Nat

namespace Recorder

def empty (failAt : Option Nat) : Recorder := ⟨[], 0, failAt⟩

/-- The calls so far, in order. -/
def events (recorder : Recorder) : List Event := recorder.reversed.reverse

/-- Record a call, or fail if its turn has come. -/
def record (event : Event) : Attempt OutputError Recorder Unit := do
  let r ← get
  if r.failAt = some r.count then
    set (⟨.fail event.kind :: r.reversed, r.count + 1, r.failAt⟩ : Recorder)
    throw (.other "sink failure")
  else
    set (⟨event :: r.reversed, r.count + 1, r.failAt⟩ : Recorder)

theorem record_ne_interrupted (event : Event) (r : Recorder) :
    (record event r).1 ≠ .error .interrupted := by
  have hget : (get : Attempt OutputError Recorder Recorder) r = (.ok r, r) := rfl
  rw [record, Attempt.bind_ok hget]
  split
  · change Except.error (OutputError.other "sink failure") ≠ _
    exact nofun
  · change Except.ok () ≠ _
    exact nofun

instance : Sink Recorder Unit where
  createUnit name := record (.create name)
  write _ text := record (.write text)
  flush _ := record .flush
  installSupport := record .install
  interruptions _ := 0
  interruptions_lt h := absurd (congrArg Prod.fst h) (record_ne_interrupted _ _)

end Recorder

end JasminGen
