/-
  JasminGen.Proofs.Interning

  Numbering texts. Whatever calls are made on a table, its list of texts and its map of
  numbers stay inverse to each other: the texts stand in the order of their first
  insertions, and the number of a text is its place among them. So a number once handed
  out stands for the same text ever after, and numbers are equal only if their texts are.

  One call is compared with the list of different texts by `Numbers.call`; that a whole run
  keeps it, `numbers_tableAfter`, follows by induction.

  Main definitions: `Interner.Call`, `Interner.firsts`, `Interner.Numbers`. Main result:
  `interning_bijective`.
-/

import JasminGen.Interner
import JasminGen.Proofs.Transcript
import Mathlib.Data.List.Nodup

namespace JasminGen

namespace Interner

-- ============================================================================
-- Calls
-- ============================================================================

/-- A call on a table. -/
inductive Call where
  | insert (text : String)
  | get (number : UInt32)
  | indexOf (text : String)

/-- What a call gives back. -/
inductive Answer where
  | number (n : UInt32)
  | text? (text : Option String)
  | number? (n : Option UInt32)
  deriving DecidableEq

/-- Make a call: its answer, and the table after it. -/
def call (table : Interner) : Call → Answer × Interner
  | .insert text => (.number (table.insert text).1, (table.insert text).2)
  | .get number => (.text? (table.get? number), table)
  | .indexOf text => (.number? (table.indexOf? text), table)

/-- The table that calls on an empty one lead to. -/
def tableAfter (calls : List Call) : Interner :=
  stateAfter call empty calls

/-- The answers to calls on an empty table, in order. -/
def answers (calls : List Call) : List Answer :=
  answersTo call empty calls

/-- The text that a call inserts. -/
def Call.inserted? : Call → Option String
  | .insert text => some text
  | .get _ | .indexOf _ => none

/-- The texts that calls insert, in order. -/
def inserted (calls : List Call) : List String :=
  calls.filterMap Call.inserted?

/-- The different texts that calls insert, in the order of their first insertions. -/
def firsts (calls : List Call) : List String :=
  (inserted calls).eraseDups

theorem mem_firsts {calls : List Call} {text : String} :
    text ∈ firsts calls ↔ text ∈ inserted calls :=
  List.mem_eraseDups

/-- More calls only add texts at the end. -/
theorem firsts_isPrefix {calls calls' : List Call} (h : calls <+: calls') :
    firsts calls <+: firsts calls' := by
  obtain ⟨more, rfl⟩ := h
  have hinserted : inserted (calls ++ more) = inserted calls ++ inserted more :=
    List.filterMap_append
  rw [firsts, firsts, hinserted, List.eraseDups_append]
  exact List.prefix_append _ _

theorem firsts_of_inserted?_eq_none {calls : List Call} {c : Call} (h : c.inserted? = none) :
    firsts (calls ++ [c]) = firsts calls := by
  rw [firsts, inserted, List.filterMap_append, List.filterMap_cons_none h, List.filterMap_nil,
    List.append_nil]
  rfl

theorem firsts_insert (calls : List Call) (text : String) :
    firsts (calls ++ [.insert text]) =
      if text ∈ firsts calls then firsts calls else firsts calls ++ [text] := by
  have hinserted : inserted (calls ++ [.insert text]) = inserted calls ++ [text] := by
    simp [inserted, Call.inserted?]
  rw [firsts, hinserted, List.eraseDups_append]
  split
  · next hmem =>
      have hmem := mem_firsts.mp hmem
      simp [List.removeAll, hmem, firsts]
  · next hmem =>
      have hmem := mt mem_firsts.mpr hmem
      simp [List.removeAll, hmem, firsts, List.eraseDups_cons]

-- ============================================================================
-- Texts and numbers are inverse to each other
-- ============================================================================

/-- A table numbers the given texts by their places, as far as 32 bits go. -/
structure Numbers (table : Interner) (texts : List String) : Prop where
  texts_eq : table.texts.toList = texts
  distinct : texts.Nodup
  number_iff : ∀ text n, table.indexOf? text = some n ↔
    ∃ place, texts[place]? = some text ∧ n = UInt32.ofNat place

theorem numbers_empty : Numbers empty [] where
  texts_eq := rfl
  distinct := List.nodup_nil
  number_iff text n := by simp [indexOf?, empty]

namespace Numbers

variable {table : Interner} {texts : List String}

theorem get?_eq (h : Numbers table texts) (n : UInt32) : table.get? n = texts[n.toNat]? := by
  rw [get?, ← h.texts_eq, Array.getElem?_toList]

theorem indexOf?_eq_none_iff (h : Numbers table texts) {text : String} :
    table.indexOf? text = none ↔ text ∉ texts := by
  rw [Option.eq_none_iff_forall_ne_some, List.mem_iff_getElem?, not_exists]
  constructor
  · intro hnone place hplace
    exact hnone _ ((h.number_iff text _).mpr ⟨place, hplace, rfl⟩)
  · intro hmem n hn
    obtain ⟨place, hplace, -⟩ := (h.number_iff text n).mp hn
    exact hmem place hplace

/-- As long as the numbers do not wrap, the list and the map are inverse to each other. -/
theorem indexOf?_eq_some_iff (h : Numbers table texts) (hfew : texts.length ≤ UInt32.size)
    {text : String} {n : UInt32} :
    table.indexOf? text = some n ↔ texts[n.toNat]? = some text := by
  rw [h.number_iff]
  constructor
  · rintro ⟨place, hplace, rfl⟩
    have hlt : place < texts.length := (List.getElem?_eq_some_iff.mp hplace).1
    rwa [UInt32.toNat_ofNat_of_lt' (Nat.lt_of_lt_of_le hlt hfew)]
  · intro hn
    exact ⟨n.toNat, hn, UInt32.ofNat_toNat.symm⟩

theorem insert_of_mem (h : Numbers table texts) {text : String} (hmem : text ∈ texts) :
    (table.insert text).2 = table := by
  rw [insert]
  split
  · rfl
  · next hnone => exact absurd hmem (h.indexOf?_eq_none_iff.mp hnone)

theorem insert_of_not_mem (h : Numbers table texts) {text : String} (hmem : text ∉ texts) :
    Numbers (table.insert text).2 (texts ++ [text]) := by
  have hsize : table.texts.size = texts.length := by rw [← h.texts_eq, Array.length_toList]
  rw [insert, h.indexOf?_eq_none_iff.mpr hmem]
  refine ⟨by simp [h.texts_eq], ?_, ?_⟩
  · rw [← List.concat_eq_append, List.nodup_concat]
    exact ⟨hmem, h.distinct⟩
  intro other n
  simp only [getElem?_concat_eq_some_iff, hsize]
  by_cases hother : other = text
  · subst hother
    have hnot : ∀ place, texts[place]? ≠ some other :=
      fun place hplace => hmem (List.mem_of_getElem? hplace)
    simp [indexOf?, hnot, eq_comm]
  · have hne : (other == text) = false := beq_eq_false_iff_ne.mpr hother
    simp only [indexOf?, List.lookup_cons, hne, Ne.symm hother, and_false, or_false]
    exact h.number_iff other n

/-- A call keeps the texts numbered by their places, in the order of first insertions. -/
theorem call {calls : List Call} (h : Numbers table (firsts calls)) (c : Call) :
    Numbers (table.call c).2 (firsts (calls ++ [c])) := by
  cases c with
  | insert text =>
      rw [firsts_insert]
      split
      · next hmem =>
          rw [Interner.call, h.insert_of_mem hmem]
          exact h
      · next hmem => exact h.insert_of_not_mem hmem
  | get number => rwa [firsts_of_inserted?_eq_none rfl]
  | indexOf text => rwa [firsts_of_inserted?_eq_none rfl]

end Numbers

theorem numbers_tableAfter (calls : List Call) : Numbers (tableAfter calls) (firsts calls) :=
  stateAfter_invariant (P := fun calls table => Numbers table (firsts calls)) numbers_empty
    (fun _ _ c h => h.call c) calls

-- ============================================================================
-- Runs
-- ============================================================================

/-- The call at a place inserts a text, and a number is handed out for it. -/
def HandsOut (calls : List Call) (k : Nat) (text : String) (n : UInt32) : Prop :=
  calls[k]? = some (Call.insert text) ∧ (answers calls)[k]? = some (Answer.number n)

/-- What the calls of a run learn about the texts that are inserted. -/
structure Bijective (calls : List Call) : Prop where
  answered : ∀ (k : Nat) (text : String), calls[k]? = some (Call.insert text) →
    ∃ n, HandsOut calls k text n
  /-- The number of a text is its place among the different texts, in the order of their
      first insertions. -/
  number_place : ∀ k text n, HandsOut calls k text n → (firsts calls)[n.toNat]? = some text
  /-- A new text gets the number of different texts before it. -/
  number_new : ∀ k text n, HandsOut calls k text n → text ∉ inserted (calls.take k) →
    n.toNat = (firsts (calls.take k)).length
  /-- Numbers are equal exactly if their texts are. -/
  number_inj : ∀ j k text text' n n', HandsOut calls j text n → HandsOut calls k text' n' →
    (n = n' ↔ text = text')
  /-- A text and its number stand for each other at every later point. -/
  number_kept : ∀ j k text n, HandsOut calls j text n → j < k →
    (tableAfter (calls.take k)).get? n = some text ∧
      (tableAfter (calls.take k)).indexOf? text = some n
  /-- At every point there are as many numbers as different texts so far. -/
  get_none : ∀ k n, (tableAfter (calls.take k)).get? n = none ↔
    (firsts (calls.take k)).length ≤ n.toNat
  indexOf_none : ∀ k text, (tableAfter (calls.take k)).indexOf? text = none ↔
    text ∉ inserted (calls.take k)
  /-- Queries are answered as the table stands when they come. -/
  get_answer : ∀ (k : Nat) (n : UInt32), calls[k]? = some (Call.get n) →
    (answers calls)[k]? = some (Answer.text? ((tableAfter (calls.take k)).get? n))
  indexOf_answer : ∀ (k : Nat) (text : String), calls[k]? = some (Call.indexOf text) →
    (answers calls)[k]? = some (Answer.number? ((tableAfter (calls.take k)).indexOf? text))

section Runs

variable {calls : List Call} {k : Nat}

theorem length_firsts_take_le (k : Nat) :
    (firsts (calls.take k)).length ≤ (firsts calls).length :=
  (firsts_isPrefix (List.take_prefix k calls)).length_le

/-- Right after an insertion the map has the number that was handed out. -/
theorem indexOf?_insert (table : Interner) (text : String) :
    (table.insert text).2.indexOf? text = some (table.insert text).1 := by
  rw [insert]
  split
  · next n hn => exact hn
  · exact List.lookup_cons_self

namespace HandsOut

variable {text : String} {n : UInt32}

theorem indexOf?_eq (h : HandsOut calls k text n) :
    (tableAfter (calls.take (k + 1))).indexOf? text = some n := by
  obtain ⟨hcall, hanswer⟩ := h
  rw [answers, getElem?_answersTo hcall] at hanswer
  cases hanswer
  rw [tableAfter, stateAfter_take_succ hcall]
  exact indexOf?_insert _ _

/-- The number that is handed out for a text is its place among the texts so far. -/
theorem place (h : HandsOut calls k text n) (hfew : (firsts calls).length ≤ UInt32.size) :
    (firsts (calls.take (k + 1)))[n.toNat]? = some text :=
  ((numbers_tableAfter _).indexOf?_eq_some_iff
    (Nat.le_trans (length_firsts_take_le _) hfew)).mp h.indexOf?_eq

/-- It is the place of the text after any further calls, too. -/
theorem place_within (h : HandsOut calls k text n) (hfew : (firsts calls).length ≤ UInt32.size)
    {calls' : List Call} (hmore : calls.take (k + 1) <+: calls') :
    (firsts calls')[n.toNat]? = some text :=
  getElem?_of_isPrefix (firsts_isPrefix hmore) (h.place hfew)

theorem place_new (h : HandsOut calls k text n) (hfew : (firsts calls).length ≤ UInt32.size)
    (hnew : text ∉ inserted (calls.take k)) : n.toNat = (firsts (calls.take k)).length := by
  have hplace := h.place hfew
  have hnot : text ∉ firsts (calls.take k) := mt mem_firsts.mp hnew
  rw [List.take_add_one, h.1, Option.toList_some, firsts_insert, if_neg hnot,
    getElem?_concat_eq_some_iff] at hplace
  rcases hplace with hplace | ⟨hplace, -⟩
  · exact absurd (List.mem_of_getElem? hplace) hnot
  · exact hplace

end HandsOut

end Runs

end Interner

open Interner

/-- For all calls on an empty table with fewer than 2^32 different texts: numbers are handed
    out from 0 on in the order of first insertions, and texts and numbers stand for each
    other from then on. -/
theorem interning_bijective (calls : List Call) (hfew : (firsts calls).length < UInt32.size) :
    Bijective calls where
  answered k text hcall := ⟨_, hcall, getElem?_answersTo hcall⟩
  number_place k text n h := h.place_within (Nat.le_of_lt hfew) (List.take_prefix _ _)
  number_new k text n h hnew := h.place_new (Nat.le_of_lt hfew) hnew
  number_inj j k text text' n n' h h' := by
    have hplace := h.place_within (Nat.le_of_lt hfew) (List.take_prefix _ _)
    have hplace' := h'.place_within (Nat.le_of_lt hfew) (List.take_prefix _ _)
    constructor
    · rintro rfl
      exact Option.some.inj (hplace.symm.trans hplace')
    · rintro rfl
      have hlt : n.toNat < (firsts calls).length := (List.getElem?_eq_some_iff.mp hplace).1
      exact UInt32.toNat_inj.mp
        ((List.getElem?_inj hlt (numbers_tableAfter calls).distinct).mp (hplace.trans hplace'.symm))
  number_kept j k text n h hjk := by
    have hplace := h.place_within (Nat.le_of_lt hfew) (List.take_prefix_take_left hjk)
    rw [(numbers_tableAfter _).get?_eq, (numbers_tableAfter _).indexOf?_eq_some_iff
      (Nat.le_trans (length_firsts_take_le k) (Nat.le_of_lt hfew))]
    exact ⟨hplace, hplace⟩
  get_none k n := by
    rw [(numbers_tableAfter _).get?_eq, List.getElem?_eq_none_iff]
  indexOf_none k text := by
    rw [(numbers_tableAfter _).indexOf?_eq_none_iff, mem_firsts]
  get_answer k n hcall := getElem?_answersTo hcall
  indexOf_answer k text hcall := getElem?_answersTo hcall

/-- Texts come again before and after others are new, and numbers and texts are asked for that
    are not there yet, or never. -/
def repeatedCalls : List Call :=
  [.insert "b", .indexOf "a", .insert "a", .insert "b", .get 2, .insert "", .get 2, .indexOf "c"]

theorem interning_bijective_repeated :
    (firsts repeatedCalls).length < UInt32.size ∧ Bijective repeatedCalls ∧
      answers repeatedCalls =
        [.number 0, .number? none, .number 1, .number 0, .text? none, .number 2,
          .text? (some ""), .number? none] := by
  have hfew : (firsts repeatedCalls).length < UInt32.size := by decide
  exact ⟨hfew, interning_bijective _ hfew, by decide⟩

end JasminGen
