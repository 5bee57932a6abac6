/-
  JasminGen.Proofs.Transcript

  Calls that are made one after another on a state which answers them: the state that they
  lead to, and the list of their answers. What calls enter into a state is often a list that
  grows at its end, and keeps the places of its elements.

  Main definitions: `stateAfter`, `answersTo`. Main results: `stateAfter_invariant`,
  `getElem?_answersTo`, `getElem?_of_isPrefix`.
-/

namespace JasminGen

section

variable {σ κ α : Type} (step : σ → κ → α × σ)

/-- The state after calls. -/
def stateAfter (s : σ) (calls : List κ) : σ :=
  calls.foldl (fun s c => (step s c).2) s

/-- The answers to calls, in order. -/
def answersTo (s : σ) : List κ → List α
  | [] => []
  | c :: rest => (step s c).1 :: answersTo (step s c).2 rest

variable {step} {s : σ} {calls : List κ} {c : κ} {k : Nat}

theorem stateAfter_append (calls' : List κ) :
    stateAfter step s (calls ++ calls') = stateAfter step (stateAfter step s calls) calls' :=
  List.foldl_append

theorem stateAfter_take_succ (hc : calls[k]? = some c) :
    stateAfter step s (calls.take (k + 1)) = (step (stateAfter step s (calls.take k)) c).2 := by
  rw [List.take_add_one, hc, Option.toList_some, stateAfter_append]
  rfl

/-- A call is answered in the state that the calls before it lead to. -/
theorem getElem?_answersTo (hc : calls[k]? = some c) :
    (answersTo step s calls)[k]? = some (step (stateAfter step s (calls.take k)) c).1 := by
  induction calls generalizing s k with
  | nil => cases hc
  | cons d rest ih =>
      cases k with
      | zero =>
          cases hc
          rfl
      | succ k => exact ih hc

/-- What relates a state to the calls made so far, and is kept by each call, relates the last
    state to all calls. -/
theorem stateAfter_invariant {P : List κ → σ → Prop} (hstart : P [] s)
    (hstep : ∀ calls s c, P calls s → P (calls ++ [c]) (step s c).2) (calls : List κ) :
    P calls (stateAfter step s calls) := by
  -- the calls made already stand in front, and the induction is on those still to come
  suffices h : ∀ done s, P done s → P (done ++ calls) (stateAfter step s calls) from h [] s hstart
  induction calls with
  | nil =>
      intro done s hs
      rwa [List.append_nil]
  | cons c rest ih =>
      intro done s hs
      rw [List.append_cons]
      exact ih _ _ (hstep done s c hs)

end

/-- A list that grows at its end keeps its elements in their places. -/
theorem getElem?_of_isPrefix {α : Type} {xs ys : List α} (h : xs <+: ys) {i : Nat} {x : α}
    (hx : xs[i]? = some x) : ys[i]? = some x := by
  obtain ⟨more, rfl⟩ := h
  rw [List.getElem?_append_left (List.getElem?_eq_some_iff.mp hx).1, hx]

/-- An element of a list that has grown was there before, or is the one at the end. -/
theorem getElem?_concat_eq_some_iff {α : Type} {xs : List α} {x y : α} {place : Nat} :
    (xs ++ [x])[place]? = some y ↔ xs[place]? = some y ∨ place = xs.length ∧ x = y := by
  rw [List.getElem?_append]
  split
  · next hlt => simp [Nat.ne_of_lt hlt]
  · next hge =>
      have hnone : xs[place]? = none := List.getElem?_eq_none (Nat.not_lt.mp hge)
      rw [List.getElem?_singleton, hnone]
      split <;> simp <;> omega

end JasminGen
