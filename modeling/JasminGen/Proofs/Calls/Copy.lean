/-
  JasminGen.Proofs.Calls.Copy

  Deep copies of lists, as the copy constructor of `List` makes them: elements that are
  lists are copied as well, each to an object of its own, and all others are shared. The
  objects that a copy needs come one after the other at the end of the heap.

  A list that is an element of itself, at whatever depth, cannot be copied.

  Main definitions: `copyWord`, `copyList`, `Copied`. Main result: `copied_of_copyList`.
-/

import JasminGen.Proofs.Machine
import Mathlib.Data.List.Forall2

namespace JasminGen

-- ============================================================================
-- Copying
-- ============================================================================

/-- The elements of the list that a word refers to. -/
def listAt? (heap : List Cell) : Word → Option (List Word)
  | .ref address =>
    match heap[address]? with
    | some (.list elements) => some elements
    | _ => none
  | _ => none

/-- Copy words one after the other, where `one` copies a word, with new objects from an
    address on. -/
def copyAll (one : Nat → Word → Option (Word × List Cell)) :
    Nat → List Word → Option (List Word × List Cell)
  | _, [] => some ([], [])
  | next, w :: rest => do
    let (copy, cells) ← one next w
    let (copies, more) ← copyAll one (next + cells.length) rest
    some (copy :: copies, cells ++ more)

/-- The copy of a word in which lists are nested at most `depth` deep, and the new objects
    from the address `next` on. The object of a list comes before those of its elements. -/
def copyWord (heap : List Cell) (depth next : Nat) (w : Word) : Option (Word × List Cell) :=
  match listAt? heap w with
  | none => some (w, [])
  | some elements =>
    match depth with
    | 0 => none
    | depth + 1 => do
      let (copies, cells) ← copyAll (copyWord heap depth) (next + 1) elements
      some (.ref next, .list copies :: cells)

/-- The heap after the copy constructor was called on a new list and the word `source`. -/
def copyList (heap : List Cell) (target : Nat) (source : Word) : Option (List Cell) :=
  if heap[target]? = some (.raw listClass) then do
    let elements ← listAt? heap source
    let (copies, cells) ← copyAll (copyWord heap heap.length) heap.length elements
    some (heap.set target (.list copies) ++ cells)
  else none

-- ============================================================================
-- Copies
-- ============================================================================

/-- `Copied old new w w'`: the word `w'` is a deep copy of `w` as it is in the heap `old`.
    The lists in the copy are in the heap `new`, and were not made before. -/
inductive Copied (old new : List Cell) : Word → Word → Prop where
  | shared {w : Word} : listAt? old w = none → Copied old new w w
  | list {source : Word} {copy : Nat} {elements copies : List Word} :
      listAt? old source = some elements →
      (∀ cell, old[copy]? = some cell → cell = .raw listClass) →
      new[copy]? = some (.list copies) → List.Forall₂ (Copied old new) elements copies →
      Copied old new source (.ref copy)

section Copied

variable {heap new cells : List Cell}

theorem listAt?_eq_some {w : Word} {elements : List Word} :
    listAt? heap w = some elements ↔
      ∃ address, w = .ref address ∧ heap[address]? = some (.list elements) := by
  constructor
  · intro h
    unfold listAt? at h
    split at h
    · next address =>
        split at h
        · next found hfound =>
            cases h
            exact ⟨address, rfl, hfound⟩
        · cases h
    · cases h
  · rintro ⟨address, rfl, hcell⟩
    simp only [listAt?, hcell]

/-- What copying words in a row gives. -/
theorem copyAll_cons {one : Nat → Word → Option (Word × List Cell)} {next : Nat} {w : Word}
    {rest copies : List Word}
    (h : copyAll one next (w :: rest) = some (copies, cells)) :
    ∃ copy first others more, one next w = some (copy, first) ∧
      copyAll one (next + first.length) rest = some (others, more) ∧
      copies = copy :: others ∧ cells = first ++ more := by
  rw [copyAll] at h
  obtain ⟨⟨copy, first⟩, hone, h⟩ := Option.bind_eq_some_iff.mp h
  obtain ⟨⟨others, more⟩, hrest, h⟩ := Option.bind_eq_some_iff.mp h
  cases h
  exact ⟨copy, first, others, more, hone, hrest, rfl, rfl⟩

/-- A word is shared, or it is a list and copied to the next address. -/
theorem copyWord_cases {depth next : Nat} {w copy : Word}
    (h : copyWord heap depth next w = some (copy, cells)) :
    listAt? heap w = none ∧ copy = w ∧ cells = [] ∨
      ∃ elements smaller copies more, listAt? heap w = some elements ∧ depth = smaller + 1 ∧
        copyAll (copyWord heap smaller) (next + 1) elements = some (copies, more) ∧
        copy = .ref next ∧ cells = .list copies :: more := by
  rw [copyWord.eq_def] at h
  cases hlist : listAt? heap w with
  | none =>
      simp only [hlist, Option.some.injEq, Prod.mk.injEq] at h
      exact .inl ⟨rfl, h.1.symm, h.2.symm⟩
  | some elements =>
      simp only [hlist] at h
      cases depth with
      | zero => cases h
      | succ smaller =>
          obtain ⟨⟨copies, more⟩, hall, h⟩ := Option.bind_eq_some_iff.mp h
          cases h
          exact .inr ⟨elements, smaller, copies, more, rfl, rfl, hall, rfl, rfl⟩

/-- Objects at an address, in two parts. -/
theorem prefix_drop_append {more : List Cell} {next : Nat}
    (h : cells ++ more <+: new.drop next) :
    cells <+: new.drop next ∧ more <+: new.drop (next + cells.length) := by
  refine ⟨(List.prefix_append cells more).trans h, ?_⟩
  obtain ⟨rest, hrest⟩ := h
  refine ⟨rest, ?_⟩
  rw [← List.drop_drop, ← hrest, List.append_assoc, List.drop_left]

theorem forall₂_copied_of_copyAll {one : Nat → Word → Option (Word × List Cell)}
    (hone : ∀ next w copy cells, heap.length ≤ next → one next w = some (copy, cells) →
      cells <+: new.drop next → Copied heap new w copy) (ws : List Word) :
    ∀ {next : Nat} {copies : List Word} {cells : List Cell}, heap.length ≤ next →
      copyAll one next ws = some (copies, cells) → cells <+: new.drop next →
      List.Forall₂ (Copied heap new) ws copies := by
  induction ws with
  | nil =>
      intro next copies cells _ h _
      cases h
      exact .nil
  | cons w rest ih =>
      intro next copies cells hnext h hcells
      obtain ⟨copy, first, others, more, hw, hrest, rfl, rfl⟩ := copyAll_cons h
      obtain ⟨hfirst, hmore⟩ := prefix_drop_append hcells
      exact .cons (hone next w copy first hnext hw hfirst)
        (ih (Nat.le_add_right_of_le hnext) hrest hmore)

/-- The copy of a word in a heap that has the new objects where they belong. -/
theorem copied_of_copyWord {depth : Nat} : ∀ {next : Nat} {w copy : Word} {cells : List Cell},
    heap.length ≤ next → copyWord heap depth next w = some (copy, cells) →
    cells <+: new.drop next → Copied heap new w copy := by
  induction depth with
  | zero =>
      intro next w copy cells _ h _
      rcases copyWord_cases h with ⟨hnone, rfl, -⟩ | ⟨_, _, _, _, -, hdepth, -⟩
      · exact .shared hnone
      · cases hdepth
  | succ depth ih =>
      intro next w copy cells hnext h hcells
      rcases copyWord_cases h with
        ⟨hnone, rfl, -⟩ | ⟨elements, smaller, copies, more, hlist, hdepth, hall, rfl, rfl⟩
      · exact .shared hnone
      · obtain rfl : depth = smaller := Nat.succ.inj hdepth
        have hsplit : [.list copies] ++ more <+: new.drop next := hcells
        obtain ⟨hfirst, hmore⟩ := prefix_drop_append hsplit
        have hcell : new[next]? = some (.list copies) := by
          obtain ⟨rest, hrest⟩ := hfirst
          have hget := congrArg (fun l => l[0]?) hrest
          simpa [List.getElem?_drop] using hget.symm
        refine .list hlist ?_ hcell (forall₂_copied_of_copyAll (fun _ _ _ _ => ih) elements
          (Nat.le_add_right_of_le hnext) hall hmore)
        intro cell hold
        rw [List.getElem?_eq_none hnext] at hold
        cases hold

/-- What the copy constructor does: the new list gets copies of the elements, and their
    objects are put at the end of the heap. -/
theorem copyList_eq_some {target : Nat} {source : Word}
    (h : copyList heap target source = some new) :
    ∃ elements copies cells, heap[target]? = some (.raw listClass) ∧
      listAt? heap source = some elements ∧
      copyAll (copyWord heap heap.length) heap.length elements = some (copies, cells) ∧
      new = heap.set target (.list copies) ++ cells := by
  unfold copyList at h
  split at h
  · next hraw =>
      obtain ⟨elements, hlist, h⟩ := Option.bind_eq_some_iff.mp h
      obtain ⟨⟨copies, cells⟩, hall, h⟩ := Option.bind_eq_some_iff.mp h
      exact ⟨elements, copies, cells, hraw, hlist, hall, (Option.some.inj h).symm⟩
  · cases h

/-- The copy constructor makes a deep copy of its argument. -/
theorem copied_of_copyList {target : Nat} {source : Word}
    (h : copyList heap target source = some new) : Copied heap new source (.ref target) := by
  obtain ⟨elements, copies, cells, hraw, hlist, hall, rfl⟩ := copyList_eq_some h
  have htarget : target < heap.length := (List.getElem?_eq_some_iff.mp hraw).1
  have hlength : (heap.set target (.list copies)).length = heap.length := List.length_set
  have hcells : (heap.set target (.list copies) ++ cells).drop heap.length = cells := by
    rw [← hlength, List.drop_left]
  refine .list hlist ?_ ?_ (forall₂_copied_of_copyAll (fun _ _ _ _ => copied_of_copyWord) elements
    (Nat.le_refl _) hall (hcells.symm ▸ List.prefix_refl cells))
  · intro cell hcell
    rw [hraw] at hcell
    exact (Option.some.inj hcell).symm
  · rw [List.getElem?_append_left (hlength.symm ▸ htarget), List.getElem?_set_self htarget]

/-- Copying changes no other object. -/
theorem getElem?_of_copyList {target address : Nat} {source : Word} {cell : Cell}
    (h : copyList heap target source = some new) (haddress : address ≠ target)
    (hcell : heap[address]? = some cell) : new[address]? = some cell := by
  obtain ⟨elements, copies, cells, -, -, -, rfl⟩ := copyList_eq_some h
  have hlt : address < heap.length := (List.getElem?_eq_some_iff.mp hcell).1
  rw [List.getElem?_append_left (by rwa [List.length_set]), List.getElem?_set_ne haddress.symm,
    hcell]

end Copied

end JasminGen
