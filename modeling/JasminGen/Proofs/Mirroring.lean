/-
  JasminGen.Proofs.Mirroring

  Two sinks that hold the same. If creating, writing and flushing keep two sinks in step and
  are refused by neither, then a run on a program ends alike on both of them, whether it
  succeeds or not, and they still hold the same afterwards. Between two requests nothing
  waits in a writer, so it does not matter where a failed run has stopped.

  Main definition: `Mirroring`. Main results: `Mirroring.actAll`, `Mirroring.generate`.
-/

import JasminGen.Proofs.Actions
import JasminGen.Proofs.Lowering.Opened

namespace JasminGen

/-- How two sinks are kept in step. -/
structure Mirroring (σ ω τ υ : Type) [Sink σ ω] [Sink τ υ] where
  /-- The names of units that both can create. -/
  Names : String → Prop
  /-- The sinks hold the same. -/
  Idle : σ → τ → Prop
  /-- The writers write into the same unit, in which something may wait to be flushed. -/
  Writing : σ → ω → τ → υ → Prop
  /-- The writers write into the same unit, and nothing waits. -/
  Settled : σ → ω → τ → υ → Prop
  idle : ∀ {s w t v}, Settled s w t v → Idle s t
  writing : ∀ {s w t v}, Settled s w t v → Writing s w t v
  create : ∀ {s t}, Idle s t → ∀ {name}, Names name → ∃ w s' v t',
    Sink.createUnit name s = (.ok w, s') ∧ Sink.createUnit name t = (.ok v, t') ∧
      Settled s' w t' v
  write : ∀ {s w t v}, Writing s w t v → ∀ text, ∃ s' t',
    Sink.write w text s = (.ok (), s') ∧ Sink.write v text t = (.ok (), t') ∧ Writing s' w t' v
  flush : ∀ {s w t v}, Writing s w t v → ∃ s' t',
    Sink.flush w s = (.ok (), s') ∧ Sink.flush v t = (.ok (), t') ∧ Settled s' w t' v

namespace Mirroring

variable {σ ω τ υ : Type} [Sink σ ω] [Sink τ υ] (M : Mirroring σ ω τ υ)

/-- Outputs into the two sinks, with the same unit open or none. -/
inductive Outputs : Output σ ω → Output τ υ → Prop where
  | closed {s : σ} {t : τ} : M.Idle s t → Outputs ⟨none, s⟩ ⟨none, t⟩
  | opened {name : String} {s : σ} {w : ω} {t : τ} {v : υ} :
      M.Settled s w t v → Outputs ⟨some ⟨name, w⟩, s⟩ ⟨some ⟨name, v⟩, t⟩

/-- The computations end alike on the two outputs, and keep them in step. -/
def Alike (m : Attempt GenError (Output σ ω) Unit) (m' : Attempt GenError (Output τ υ) Unit)
    (out : Output σ ω) (out' : Output τ υ) : Prop :=
  ∃ result last last', m out = (result, last) ∧ m' out' = (result, last') ∧ M.Outputs last last'

variable {M}

theorem Outputs.idle {out : Output σ ω} {out' : Output τ υ} (h : M.Outputs out out') :
    M.Idle out.sink out'.sink := by
  cases h with
  | closed h => exact h
  | opened h => exact M.idle h

theorem Alike.bind {m : Attempt GenError (Output σ ω) Unit}
    {m' : Attempt GenError (Output τ υ) Unit} {k : Unit → Attempt GenError (Output σ ω) Unit}
    {k' : Unit → Attempt GenError (Output τ υ) Unit} {out : Output σ ω} {out' : Output τ υ}
    (h : M.Alike m m' out out')
    (hk : ∀ last last', M.Outputs last last' → M.Alike (k ()) (k' ()) last last') :
    M.Alike (m >>= k) (m' >>= k') out out' := by
  obtain ⟨result, last, last', hm, hm', hlast⟩ := h
  cases result with
  | error reason => exact ⟨.error reason, last, last', Attempt.bind_error hm,
      Attempt.bind_error hm', hlast⟩
  | ok u =>
      obtain ⟨result, stop, stop', hstop, hstop', h'⟩ := hk last last' hlast
      exact ⟨result, stop, stop', (Attempt.bind_ok hm).trans hstop,
        (Attempt.bind_ok hm').trans hstop', h'⟩

omit [Sink σ ω] in
theorem useSink_ok {α : Type} {use : Attempt OutputError σ α} {unit : Option (OpenUnit ω)}
    {s s' : σ} {a : α} (h : use s = (.ok a, s')) :
    Output.useSink use ⟨unit, s⟩ = (.ok a, ⟨unit, s'⟩) := by
  rw [Output.useSink_eq, h]
  rfl

/-- Lines are written into both sinks. -/
theorem writeLines (lines : List String) {unit : Option (OpenUnit ω)}
    {unit' : Option (OpenUnit υ)} {s : σ} {w : ω} {t : τ} {v : υ} (h : M.Writing s w t v) :
    ∃ s' t', Output.writeLines w lines ⟨unit, s⟩ = (.ok (), ⟨unit, s'⟩) ∧
      Output.writeLines v lines ⟨unit', t⟩ = (.ok (), ⟨unit', t'⟩) ∧ M.Writing s' w t' v := by
  induction lines generalizing s t with
  | nil => exact ⟨s, t, rfl, rfl, h⟩
  | cons line rest ih =>
      obtain ⟨s₁, t₁, hs, ht, h₁⟩ := M.write h line
      obtain ⟨s', t', hs', ht', h'⟩ := ih h₁
      refine ⟨s', t', ?_, ?_, h'⟩
      · rw [Output.writeLines, Attempt.bind_ok (useSink_ok (Sink.writeAll_ok hs))]
        exact hs'
      · rw [Output.writeLines, Attempt.bind_ok (useSink_ok (Sink.writeAll_ok ht))]
        exact ht'

theorem emitText (text : String) {out : Output σ ω} {out' : Output τ υ}
    (h : M.Outputs out out') : M.Alike (Output.emitText text) (Output.emitText text) out out' := by
  cases h with
  | closed h => exact ⟨.error .noOpenUnit, _, _, rfl, rfl, .closed h⟩
  | @opened name s w t v h =>
      obtain ⟨s₁, t₁, hs, ht, h₁⟩ := M.writeLines (formatText text) (M.writing h)
      obtain ⟨s', t', hs', ht', h'⟩ := M.flush h₁
      refine ⟨.ok (), ⟨some ⟨name, w⟩, s'⟩, ⟨some ⟨name, v⟩, t'⟩, ?_, ?_, .opened h'⟩
      · exact (Attempt.bind_ok hs).trans (useSink_ok hs')
      · exact (Attempt.bind_ok ht).trans (useSink_ok ht')

theorem emitTexts (texts : List String) {out : Output σ ω} {out' : Output τ υ}
    (h : M.Outputs out out') :
    M.Alike (Output.emitTexts texts) (Output.emitTexts texts) out out' := by
  induction texts generalizing out out' with
  | nil => exact ⟨.ok (), out, out', rfl, rfl, h⟩
  | cons text rest ih => exact (emitText text h).bind fun _ _ => ih

theorem openUnit {name : String} (hname : M.Names name) {out : Output σ ω} {out' : Output τ υ}
    (h : M.Outputs out out') : M.Alike (Output.openUnit name) (Output.openUnit name) out out' := by
  cases h with
  | closed h =>
      obtain ⟨w, s', v, t', hs, ht, h'⟩ := M.create h hname
      refine ⟨.ok (), ⟨some ⟨name, w⟩, s'⟩, ⟨some ⟨name, v⟩, t'⟩, ?_, ?_, .opened h'⟩
      · exact Attempt.bind_ok (useSink_ok hs)
      · exact Attempt.bind_ok (useSink_ok ht)
  | @opened other _ _ _ _ h =>
      exact ⟨.error (.unitAlreadyOpen other name), _, _, rfl, rfl, .opened h⟩

theorem closeUnit {out : Output σ ω} {out' : Output τ υ} (h : M.Outputs out out') :
    M.Alike Output.closeUnit Output.closeUnit out out' := by
  cases h with
  | closed h => exact ⟨.error .noOpenUnit, _, _, rfl, rfl, .closed h⟩
  | opened h =>
      obtain ⟨s', t', hs, ht, h'⟩ := M.flush (M.writing h)
      exact ⟨.ok (), ⟨none, s'⟩, ⟨none, t'⟩, useSink_ok hs, useSink_ok ht, .closed (M.idle h')⟩

/-- One action keeps the outputs in step. -/
theorem act {action : Action} (hopens : action.Opens M.Names) {out : Output σ ω}
    {out' : Output τ υ} (h : M.Outputs out out') :
    M.Alike (Output.act action) (Output.act action) out out' := by
  cases action with
  | openUnit name => exact openUnit hopens h
  | closeUnit => exact closeUnit h
  | code c => exact emitTexts c.emission.texts h
  | emission e => exact emitTexts e.texts h
  | report line => exact ⟨.ok (), out, out', rfl, rfl, h⟩

/-- So do actions in a row, up to the first that fails. -/
theorem actAll {acts : List Action} (hopens : ∀ action ∈ acts, action.Opens M.Names)
    {out : Output σ ω} {out' : Output τ υ} (h : M.Outputs out out') :
    M.Alike (Output.actAll acts) (Output.actAll acts) out out' := by
  induction acts generalizing out out' with
  | nil => exact ⟨.ok (), out, out', rfl, rfl, h⟩
  | cons action rest ih =>
      rw [List.forall_mem_cons] at hopens
      exact (act hopens.1 h).bind fun _ _ => ih hopens.2

/-- A run ends alike on both sinks, which hold the same afterwards. -/
theorem generate {setting : Setting} {program : Program} {s : σ} {t : τ}
    (hopens : ∀ action ∈ program.actions setting, action.Opens M.Names) (h : M.Idle s t) :
    (JasminGen.generate setting program t).1 = (JasminGen.generate setting program s).1 ∧
      M.Idle (JasminGen.generate setting program s).2.output.sink
        (JasminGen.generate setting program t).2.output.sink := by
  obtain ⟨result, last, last', hs, ht, hlast⟩ := M.actAll hopens (.closed h)
  obtain ⟨hsink, hresult⟩ :=
    Session.run_output program.propagates_lower setting (Session.start s)
  obtain ⟨hsink', hresult'⟩ :=
    Session.run_output program.propagates_lower setting (Session.start t)
  have hall : Output.actAll ((program.lower setting (Session.start (ω := ω) s).frame).requests.map
      Request.action) (Session.start s).output = (result, last) := hs
  have hall' : Output.actAll ((program.lower setting (Session.start (ω := υ) t).frame).requests.map
      Request.action) (Session.start t).output = (result, last') := ht
  rw [hall] at hsink hresult
  rw [hall'] at hsink' hresult'
  rw [JasminGen.generate, JasminGen.generate, hresult, hresult', hsink, hsink']
  exact ⟨rfl, hlast.idle⟩

end Mirroring

end JasminGen
