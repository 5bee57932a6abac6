/-
  JasminGen.Proofs.Calls.Types

  Types of words and objects. Objects have one type each, or none if they are not values
  of the source language, such as the lists of arguments. New objects get types, and all
  others keep theirs.

  A list that has a type can be copied: the lists in it have types with fewer levels, so
  they are different objects, and there are no more of them than there are objects.

  Main definitions: `Word.Typed`, `Cell.Typed`, `HeapTyped`. Main results:
  `exists_copyList`, `HeapTyped.push`, `HeapTyped.set`.
-/

import JasminGen.Proofs.Calls.Evaluation
import Mathlib.Data.Finset.Card

namespace JasminGen

-- ============================================================================
-- Typed words and objects
-- ============================================================================

/-- The word has the type, if `types` are the types of objects. There may be no object for
    a function pointer or a struct. -/
inductive Word.Typed (types : Nat → Option Ty) : Word → Ty → Prop where
  | integer {n : Int32} : Typed types (.integer n) .int
  | boolean {b : Bool} : Typed types (.boolean b) .bool
  | object {address : Nat} {ty : Ty} : types address = some ty → Typed types (.ref address) ty
  | noPointer {params : List Ty} {result : Ty} : Typed types .null (.fptr params result)
  | noStruct {name : String} : Typed types .null (.struct name)

/-- The object has the type. A function pointer has the type of the function of its name. -/
inductive Cell.Typed (table : SymbolTable) (types : Nat → Option Ty) : Cell → Ty → Prop where
  | list {elements : List Word} {element : Ty} : (∀ w ∈ elements, w.Typed types element) →
      Typed table types (.list elements) (.list element)
  | fptr {receiver : Word} {function : String} {signature : Signature} :
      table.function? function = some signature →
      Typed table types (.fptr receiver function) signature.pointerTy
  | struct {name : String} : Typed table types (.plain name) (.struct name)

/-- Every object with a type is what the type says. -/
def HeapTyped (table : SymbolTable) (types : Nat → Option Ty) (heap : List Cell) : Prop :=
  ∀ (address : Nat) (ty : Ty), types address = some ty →
    ∃ cell : Cell, heap[address]? = some cell ∧ cell.Typed table types ty

section Typed

variable {table : SymbolTable} {types types' : Nat → Option Ty} {heap : List Cell}
  {ty element : Ty} {w : Word} {cell : Cell} {address : Nat}

theorem Word.Typed.mono (h : w.Typed types ty)
    (hle : ∀ a ty, types a = some ty → types' a = some ty) : w.Typed types' ty := by
  cases h with
  | integer => exact .integer
  | boolean => exact .boolean
  | object ha => exact .object (hle _ _ ha)
  | noPointer => exact .noPointer
  | noStruct => exact .noStruct

theorem Cell.Typed.mono (h : cell.Typed table types ty)
    (hle : ∀ a ty, types a = some ty → types' a = some ty) : cell.Typed table types' ty := by
  cases h with
  | list hs => exact .list fun w hw => (hs w hw).mono hle
  | fptr hf => exact .fptr hf
  | struct => exact .struct

theorem Word.Typed.boxed (h : w.Typed types ty) : w.isPrimitive = false := by
  cases h <;> rfl

theorem HeapTyped.lt_length (h : HeapTyped table types heap) (ha : types address = some ty) :
    address < heap.length := by
  obtain ⟨cell, hcell, -⟩ := h address ty ha
  exact (List.getElem?_eq_some_iff.mp hcell).1

/-- Types of the objects that are there are kept. -/
theorem HeapTyped.le (h : HeapTyped table types heap)
    (hgrows : ∀ a, a < heap.length → types' a = types a) :
    ∀ a ty, types a = some ty → types' a = some ty := by
  intro a ty ha
  rw [hgrows a (h.lt_length ha), ha]

theorem HeapTyped.int_inv (h : HeapTyped table types heap) (hw : w.Typed types .int) :
    ∃ n, w = .integer n := by
  cases hw with
  | integer => exact ⟨_, rfl⟩
  | object ha =>
      obtain ⟨_, -, hcell⟩ := h _ _ ha
      cases hcell

theorem HeapTyped.bool_inv (h : HeapTyped table types heap) (hw : w.Typed types .bool) :
    ∃ b, w = .boolean b := by
  cases hw with
  | boolean => exact ⟨_, rfl⟩
  | object ha =>
      obtain ⟨_, -, hcell⟩ := h _ _ ha
      cases hcell

theorem HeapTyped.list_inv (h : HeapTyped table types heap) (hw : w.Typed types (.list element)) :
    ∃ address elements, w = .ref address ∧ types address = some (.list element) ∧
      heap[address]? = some (.list elements) ∧ ∀ v ∈ elements, v.Typed types element := by
  cases hw with
  | object ha =>
      obtain ⟨_, hcell, hty⟩ := h _ _ ha
      cases hty with
      | list hs => exact ⟨_, _, rfl, ha, hcell, hs⟩

/-- A word of any type but `int` and `bool` is a reference. -/
theorem Word.Typed.isObject (hw : w.Typed types ty) (hint : ty ≠ .int) (hbool : ty ≠ .bool) :
    w.isObject = true := by
  cases hw with
  | integer => exact absurd rfl hint
  | boolean => exact absurd rfl hbool
  | _ => rfl

/-- A word that leads to a list has the type of a list. -/
theorem HeapTyped.list_of_listAt? {elements : List Word} (h : HeapTyped table types heap)
    (hw : w.Typed types ty) (hlist : listAt? heap w = some elements) :
    ∃ element, ty = .list element ∧ ∀ v ∈ elements, v.Typed types element := by
  obtain ⟨address, rfl, hcell⟩ := listAt?_eq_some.mp hlist
  cases hw with
  | object ha =>
      obtain ⟨cell, hcell', hty⟩ := h _ _ ha
      rw [hcell] at hcell'
      cases hcell'
      cases hty with
      | list hs => exact ⟨_, rfl, hs⟩

/-- The class of a typed word is the one that stands for its type. -/
theorem HeapTyped.class_eq {className : String} (h : HeapTyped table types heap)
    (hw : w.Typed types ty) (hclass : ty.className? = some className) :
    w = .null ∨ classAt? heap w = some className := by
  cases hw with
  | integer => exact .inr hclass
  | boolean => exact .inr hclass
  | noPointer => exact .inl rfl
  | noStruct => exact .inl rfl
  | object ha =>
      obtain ⟨cell, hcell, hty⟩ := h _ _ ha
      right
      cases hty with
      | list _ =>
          simp only [classAt?, Machine.className?, hcell]
          exact hclass
      | fptr _ =>
          simp only [classAt?, Machine.className?, hcell]
          exact hclass
      | struct =>
          simp only [classAt?, Machine.className?, hcell]
          exact hclass

/-- Objects without a type may be made. -/
theorem HeapTyped.push_untyped (h : HeapTyped table types heap) (cells : List Cell) :
    HeapTyped table types (heap ++ cells) := by
  intro address ty ha
  obtain ⟨cell, hcell, hty⟩ := h address ty ha
  exact ⟨cell, by rw [List.getElem?_append_left (List.getElem?_eq_some_iff.mp hcell).1, hcell], hty⟩

/-- A list may get elements of its type. -/
theorem HeapTyped.set {elements : List Word} (h : HeapTyped table types heap)
    (ha : types address = some (.list element)) (hs : ∀ v ∈ elements, v.Typed types element) :
    HeapTyped table types (heap.set address (.list elements)) := by
  intro other found hfound
  by_cases heq : address = other
  · subst heq
    rw [ha] at hfound
    cases hfound
    exact ⟨_, List.getElem?_set_self (h.lt_length ha), .list hs⟩
  · obtain ⟨cell, hcell, hty⟩ := h other found hfound
    exact ⟨cell, by rw [List.getElem?_set_ne heq, hcell], hty⟩

/-- A new object may have any type that it is of. -/
theorem HeapTyped.push (h : HeapTyped table types heap) (hcell : cell.Typed table types ty) :
    ∃ types', (∀ a, a < heap.length → types' a = types a) ∧ types' heap.length = some ty ∧
      HeapTyped table types' (heap ++ [cell]) := by
  refine ⟨fun a => if a = heap.length then some ty else types a, fun a hlt => ?_, if_pos rfl, ?_⟩
  · exact if_neg (Nat.ne_of_lt hlt)
  · have hle : ∀ a found, types a = some found →
        (if a = heap.length then some ty else types a) = some found := by
      intro a found ha
      rw [if_neg (Nat.ne_of_lt (h.lt_length ha)), ha]
    intro a found ha
    dsimp only at ha
    split at ha
    · next hend =>
        subst hend
        cases ha
        exact ⟨cell, List.getElem?_concat_length .., hcell.mono hle⟩
    · obtain ⟨old, hold, hty⟩ := h.push_untyped [cell] a found ha
      exact ⟨old, hold, hty.mono hle⟩

end Typed

-- ============================================================================
-- Copies of typed lists
-- ============================================================================

/-- How deep lists are nested in values of the type. -/
def Ty.levels : Ty → Nat
  | .list element => element.levels + 1
  | _ => 0

/-- The objects whose type is a list with at most as many levels as given. -/
def listsUpTo (types : Nat → Option Ty) (heap : List Cell) (levels : Nat) : Finset Nat :=
  (Finset.range heap.length).filter fun a =>
    (types a).any fun ty => 0 < ty.levels && ty.levels ≤ levels

section Copy

variable {table : SymbolTable} {types : Nat → Option Ty} {heap : List Cell} {ty element : Ty}
  {w : Word} {address : Nat}

theorem mem_listsUpTo {levels : Nat} : address ∈ listsUpTo types heap levels ↔
    address < heap.length ∧ ∃ ty, types address = some ty ∧ 0 < ty.levels ∧ ty.levels ≤ levels := by
  rw [listsUpTo, Finset.mem_filter, Finset.mem_range]
  cases types address <;> simp

/-- A list is not among those that may be its elements. -/
theorem card_listsUpTo_lt (h : HeapTyped table types heap)
    (ha : types address = some (.list element)) :
    (listsUpTo types heap element.levels).card <
      (listsUpTo types heap (Ty.list element).levels).card := by
  apply Finset.card_lt_card
  refine (Finset.ssubset_iff_of_subset fun a hmem => ?_).mpr ⟨address, ?_, fun hmem => ?_⟩
  · obtain ⟨hlt, ty, hty, hpos, hle⟩ := mem_listsUpTo.mp hmem
    exact mem_listsUpTo.mpr ⟨hlt, ty, hty, hpos, Nat.le_succ_of_le hle⟩
  · exact mem_listsUpTo.mpr ⟨h.lt_length ha, _, ha, Nat.succ_pos _, Nat.le_refl _⟩
  · obtain ⟨-, ty, hty, -, hle⟩ := mem_listsUpTo.mp hmem
    rw [ha] at hty
    cases hty
    exact Nat.not_succ_le_self _ hle

theorem card_listsUpTo_le (levels : Nat) :
    (listsUpTo types heap levels).card ≤ heap.length := by
  rw [← Finset.card_range heap.length]
  exact Finset.card_filter_le _ _

theorem copyAll_isSome {one : Nat → Word → Option (Word × List Cell)} {ws : List Word}
    (hone : ∀ next, ∀ w ∈ ws, (one next w).isSome) (next : Nat) :
    (copyAll one next ws).isSome := by
  induction ws generalizing next with
  | nil => rfl
  | cons w rest ih =>
      obtain ⟨⟨copy, cells⟩, hw⟩ := Option.isSome_iff_exists.mp (hone next w List.mem_cons_self)
      obtain ⟨⟨copies, more⟩, hrest⟩ := Option.isSome_iff_exists.mp
        (ih (fun next v hv => hone next v (List.mem_cons_of_mem _ hv)) (next + cells.length))
      simp [copyAll, hw, hrest]

/-- Typed words can be copied, if the depth is not exceeded by the number of lists that
    they may consist of. -/
theorem copyWord_isSome (h : HeapTyped table types heap) {depth : Nat} :
    ∀ {next : Nat} {w : Word} {ty : Ty}, w.Typed types ty →
      (listsUpTo types heap ty.levels).card ≤ depth → (copyWord heap depth next w).isSome := by
  induction depth with
  | zero =>
      intro next w ty hw hcard
      rw [copyWord.eq_def]
      cases hlist : listAt? heap w with
      | none => rfl
      | some elements =>
          obtain ⟨element, rfl, -⟩ := h.list_of_listAt? hw hlist
          obtain ⟨address, _, -, ha, -⟩ := h.list_inv hw
          exact absurd (card_listsUpTo_lt h ha) (by omega)
  | succ depth ih =>
      intro next w ty hw hcard
      rw [copyWord.eq_def]
      cases hlist : listAt? heap w with
      | none => rfl
      | some elements =>
          obtain ⟨element, rfl, hs⟩ := h.list_of_listAt? hw hlist
          obtain ⟨address, _, -, ha, -⟩ := h.list_inv hw
          have hlt := card_listsUpTo_lt h ha
          have hall : (copyAll (copyWord heap depth) (next + 1) elements).isSome :=
            copyAll_isSome (fun _ v hv => ih (hs v hv) (by omega)) _
          obtain ⟨⟨copies, cells⟩, hcopies⟩ := Option.isSome_iff_exists.mp hall
          simp [hcopies]

/-- The objects of a copy have types. They are `fresh`, in order from the address `next`
    on. -/
def FreshTyped (table : SymbolTable) (types : Nat → Option Ty) (next : Nat) (cells : List Cell)
    (fresh : List Ty) (post : (Nat → Option Ty) → Prop) : Prop :=
  ∀ types' : Nat → Option Ty, (∀ a ty, types a = some ty → types' a = some ty) →
    (∀ i ty, fresh[i]? = some ty → types' (next + i) = some ty) →
    List.Forall₂ (Cell.Typed table types') cells fresh ∧ post types'

theorem freshTyped_of_copyAll {one : Nat → Word → Option (Word × List Cell)} {ws : List Word}
    (hone : ∀ next, ∀ w ∈ ws, ∀ copy cells, one next w = some (copy, cells) →
      ∃ fresh, fresh.length = cells.length ∧
        FreshTyped table types next cells fresh fun types' => copy.Typed types' ty) :
    ∀ {next : Nat} {copies : List Word} {cells : List Cell},
      copyAll one next ws = some (copies, cells) →
      ∃ fresh, fresh.length = cells.length ∧
        FreshTyped table types next cells fresh fun types' =>
          ∀ copy ∈ copies, copy.Typed types' ty := by
  induction ws with
  | nil =>
      intro next copies cells h
      cases h
      exact ⟨[], rfl, fun types' _ _ => ⟨.nil, by simp⟩⟩
  | cons w rest ih =>
      intro next copies cells h
      obtain ⟨copy, first, others, more, hw, hrest, rfl, rfl⟩ := copyAll_cons h
      obtain ⟨fresh, hlength, hfresh⟩ := hone next w List.mem_cons_self copy first hw
      obtain ⟨fresh', hlength', hfresh'⟩ :=
        ih (fun next v hv => hone next v (List.mem_cons_of_mem _ hv)) hrest
      refine ⟨fresh ++ fresh', by simp [hlength, hlength'], fun types' hle hnew => ?_⟩
      obtain ⟨hcells, hcopy⟩ := hfresh types' hle fun i ty hi => hnew i ty (by
        rw [List.getElem?_append_left (List.getElem?_eq_some_iff.mp hi).1, hi])
      obtain ⟨hmore, hothers⟩ := hfresh' types' hle fun i ty hi => by
        have hi' : (fresh ++ fresh')[fresh.length + i]? = some ty := by
          rw [List.getElem?_append_right (Nat.le_add_right _ _), Nat.add_sub_cancel_left, hi]
        rw [← hlength, Nat.add_assoc, hnew _ _ hi']
      exact ⟨List.rel_append hcells hmore, List.forall_mem_cons.mpr ⟨hcopy, hothers⟩⟩

/-- The copy of a typed word has its type. -/
theorem freshTyped_of_copyWord (h : HeapTyped table types heap) {depth : Nat} :
    ∀ {next : Nat} {w copy : Word} {ty : Ty} {cells : List Cell}, w.Typed types ty →
      copyWord heap depth next w = some (copy, cells) →
      ∃ fresh, fresh.length = cells.length ∧
        FreshTyped table types next cells fresh fun types' => copy.Typed types' ty := by
  induction depth with
  | zero =>
      intro next w copy ty cells hw hcopy
      rcases copyWord_cases hcopy with ⟨-, rfl, rfl⟩ | ⟨_, _, _, _, -, hdepth, -⟩
      · exact ⟨[], rfl, fun types' hle _ => ⟨.nil, hw.mono hle⟩⟩
      · cases hdepth
  | succ depth ih =>
      intro next w copy ty cells hw hcopy
      rcases copyWord_cases hcopy with
        ⟨-, rfl, rfl⟩ | ⟨elements, smaller, copies, more, hlist, hdepth, hall, rfl, rfl⟩
      · exact ⟨[], rfl, fun types' hle _ => ⟨.nil, hw.mono hle⟩⟩
      · obtain rfl : depth = smaller := Nat.succ.inj hdepth
        obtain ⟨element, rfl, hs⟩ := h.list_of_listAt? hw hlist
        obtain ⟨fresh, hlength, hfresh⟩ :=
          freshTyped_of_copyAll (fun _ v hv _ _ hv' => ih (hs v hv) hv') hall
        refine ⟨.list element :: fresh, by simp [hlength], fun types' hle hnew => ?_⟩
        obtain ⟨hcells, hcopies⟩ := hfresh types' hle fun i ty hi => by
          rw [Nat.add_assoc, Nat.add_comm 1]
          exact hnew (i + 1) ty hi
        exact ⟨.cons (.list hcopies) hcells, .object (hnew 0 _ rfl)⟩

/-- The types after a copy in a heap with `count` objects: the new list at the address
    `target` has its type, and the objects behind the old ones have the types `fresh`. -/
def typesAfterCopy (types : Nat → Option Ty) (count target : Nat) (listTy : Ty)
    (fresh : List Ty) : Nat → Option Ty := fun a =>
  if a = target then some listTy else if a < count then types a else fresh[a - count]?

section AfterCopy

variable {count target : Nat} {listTy : Ty} {fresh : List Ty}

theorem typesAfterCopy_target : typesAfterCopy types count target listTy fresh target =
    some listTy := if_pos rfl

theorem typesAfterCopy_old {a : Nat} (hlt : a < count) (hne : a ≠ target) :
    typesAfterCopy types count target listTy fresh a = types a := by
  rw [typesAfterCopy, if_neg hne, if_pos hlt]

theorem typesAfterCopy_new (htarget : target < count) (i : Nat) :
    typesAfterCopy types count target listTy fresh (count + i) = fresh[i]? := by
  have hne : count + i ≠ target := by omega
  rw [typesAfterCopy, if_neg hne, if_neg (Nat.not_lt.mpr (Nat.le_add_right _ i)),
    Nat.add_sub_cancel_left]

/-- An object that is made but not constructed has no type. -/
theorem HeapTyped.eq_none_of_raw {className : String} (h : HeapTyped table types heap)
    (hraw : heap[target]? = some (.raw className)) : types target = none := by
  cases hty : types target with
  | none => rfl
  | some ty =>
      obtain ⟨cell, hfound, hcell⟩ := h _ _ hty
      rw [hraw] at hfound
      cases hfound
      cases hcell

theorem HeapTyped.typesAfterCopy_le (h : HeapTyped table types heap)
    (hnone : types target = none) :
    ∀ a ty, types a = some ty →
      typesAfterCopy types heap.length target listTy fresh a = some ty := by
  intro a ty ha
  have hne : a ≠ target := by
    rintro rfl
    rw [hnone] at ha
    cases ha
  rw [typesAfterCopy_old (h.lt_length ha) hne, ha]

/-- All objects have their types after a copy. -/
theorem HeapTyped.afterCopy {copies : List Word} {cells : List Cell}
    (h : HeapTyped table types heap) (htarget : target < heap.length)
    (hnone : types target = none)
    (hcopies : ∀ copy ∈ copies,
      copy.Typed (typesAfterCopy types heap.length target (.list element) fresh) element)
    (hcells : List.Forall₂ (Cell.Typed table
      (typesAfterCopy types heap.length target (.list element) fresh)) cells fresh) :
    HeapTyped table (typesAfterCopy types heap.length target (.list element) fresh)
      (heap.set target (.list copies) ++ cells) := by
  intro a ty ha
  by_cases heq : a = target
  · subst heq
    rw [typesAfterCopy_target] at ha
    cases ha
    refine ⟨_, ?_, .list hcopies⟩
    rw [List.getElem?_append_left (by rwa [List.length_set]), List.getElem?_set_self htarget]
  · by_cases hlt : a < heap.length
    · rw [typesAfterCopy_old hlt heq] at ha
      obtain ⟨cell, hcell, hty⟩ := h a ty ha
      refine ⟨cell, ?_, hty.mono (h.typesAfterCopy_le hnone)⟩
      rw [List.getElem?_append_left (by rwa [List.length_set]),
        List.getElem?_set_ne (Ne.symm heq), hcell]
    · obtain ⟨i, rfl⟩ := Nat.exists_eq_add_of_le (Nat.not_lt.mp hlt)
      rw [typesAfterCopy_new htarget] at ha
      obtain ⟨hi, rfl⟩ := List.getElem?_eq_some_iff.mp ha
      have hi' : i < cells.length := hcells.length_eq ▸ hi
      refine ⟨cells[i], ?_, (List.forall₂_iff_get.mp hcells).2 i hi' hi⟩
      rw [List.getElem?_append_right (by rw [List.length_set]; omega), List.length_set,
        Nat.add_sub_cancel_left, List.getElem?_eq_getElem hi']

end AfterCopy

/-- A typed list can be copied to an object that has no type yet, which gets the type of
    the list. -/
theorem exists_copyList {target : Nat} (h : HeapTyped table types heap)
    (hw : w.Typed types (.list element)) (hraw : heap[target]? = some (.raw listClass)) :
    ∃ heap' types', copyList heap target w = some heap' ∧ HeapTyped table types' heap' ∧
      types' target = some (.list element) ∧
      ∀ a, a < heap.length → a ≠ target → types' a = types a := by
  obtain ⟨address, elements, rfl, -, hcell, hs⟩ := h.list_inv hw
  have hlist := listAt?_eq_some.mpr ⟨address, rfl, hcell⟩
  have hall : (copyAll (copyWord heap heap.length) heap.length elements).isSome :=
    copyAll_isSome (fun _ v hv => copyWord_isSome h (hs v hv) (card_listsUpTo_le _)) _
  obtain ⟨⟨copies, cells⟩, hcopies⟩ := Option.isSome_iff_exists.mp hall
  obtain ⟨fresh, -, hfresh⟩ :=
    freshTyped_of_copyAll (fun _ v hv _ _ hv' => freshTyped_of_copyWord h (hs v hv) hv') hcopies
  have htarget : target < heap.length := (List.getElem?_eq_some_iff.mp hraw).1
  have hnone := h.eq_none_of_raw hraw
  obtain ⟨hcells, htyped⟩ := hfresh (typesAfterCopy types heap.length target (.list element) fresh)
    (h.typesAfterCopy_le hnone) fun i ty hi => by rw [typesAfterCopy_new htarget, hi]
  refine ⟨_, _, ?_, h.afterCopy htarget hnone htyped hcells, typesAfterCopy_target,
    fun a hlt hne => typesAfterCopy_old hlt hne⟩
  simp [copyList, hraw, hlist, hcopies]

end Copy

end JasminGen
