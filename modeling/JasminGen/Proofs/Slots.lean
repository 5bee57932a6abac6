/-
  JasminGen.Proofs.Slots

  How lowering hands out slots. A slot table only grows: names keep their slots, and
  names that are bound later have slots that were free before. So no two names of a
  method share a slot, and the slot of a loop counter is the slot of no name.

  Main definitions: `SlotTable.Extends`, `SlotTable.Sound`. Main results:
  `SlotTable.get?_forMethod`, `ExprLowered.extends`, `StmtLowered.extends`.
-/

import JasminGen.Proofs.Lowering.Stmt

namespace JasminGen

namespace SlotTable

/-- The table `t'` has come from `t` by handing out slots. -/
structure Extends (t t' : SlotTable) : Prop where
  kept : ∀ name slot, t.get? name = some slot → t'.get? name = some slot
  fresh : ∀ name slot, t'.get? name = some slot → t.get? name = some slot ∨ t.next ≤ slot
  next_le : t.next ≤ t'.next

theorem Extends.refl (t : SlotTable) : Extends t t :=
  ⟨fun _ _ h => h, fun _ _ h => .inl h, Nat.le_refl _⟩

theorem Extends.trans {t t₁ t₂ : SlotTable} (h : Extends t t₁) (h' : Extends t₁ t₂) :
    Extends t t₂ := by
  refine ⟨fun name slot hs => h'.kept name slot (h.kept name slot hs), ?_,
    Nat.le_trans h.next_le h'.next_le⟩
  intro name slot hs
  rcases h'.fresh name slot hs with hs | hle
  · exact h.fresh name slot hs
  · exact .inr (Nat.le_trans h.next_le hle)

/-- The slots of names are different and in use, and none is that of the receiver. -/
structure Sound (t : SlotTable) : Prop where
  positive : ∀ name slot, t.get? name = some slot → receiverSlot < slot
  used : ∀ name slot, t.get? name = some slot → slot < t.next
  injective : ∀ name name' slot, t.get? name = some slot → t.get? name' = some slot → name = name'
  next_positive : receiverSlot < t.next

theorem sound_empty : Sound empty :=
  ⟨by simp [get?, empty], by simp [get?, empty], by simp [get?, empty], by simp [empty]⟩

end SlotTable

namespace Frame

open SlotTable (Extends Sound)

theorem get?_bindSlot (f : Frame) (name other : String) :
    (f.bindSlot name).slots.get? other =
      if other = name then some f.slots.next else f.slots.get? other := by
  by_cases h : other = name
  · subst h
    simp [bindSlot, SlotTable.get?]
  · have hne : (other == name) = false := beq_eq_false_iff_ne.mpr h
    simp [bindSlot, SlotTable.get?, List.lookup_cons, hne, h]

theorem extends_bindSlot {f : Frame} {name : String} (h : f.slots.get? name = none) :
    Extends f.slots (f.bindSlot name).slots := by
  refine ⟨?_, ?_, Nat.le_succ _⟩
  · intro other slot hs
    rw [get?_bindSlot, if_neg]
    · exact hs
    · rintro rfl
      rw [h] at hs
      cases hs
  · intro other slot hs
    rw [get?_bindSlot] at hs
    split at hs
    · exact .inr (Nat.le_of_eq (Option.some.inj hs))
    · exact .inl hs

theorem sound_bindSlot {f : Frame} {name : String} (hf : Sound f.slots) :
    Sound (f.bindSlot name).slots := by
  refine ⟨?_, ?_, ?_, Nat.lt_succ_of_lt hf.next_positive⟩
  · intro other slot hs
    rw [get?_bindSlot] at hs
    split at hs
    · rw [← Option.some.inj hs]
      exact hf.next_positive
    · exact hf.positive other slot hs
  · intro other slot hs
    rw [get?_bindSlot] at hs
    split at hs
    · rw [← Option.some.inj hs]
      exact Nat.lt_succ_self _
    · exact Nat.lt_succ_of_lt (hf.used other slot hs)
  · intro first second slot h₁ h₂
    rw [get?_bindSlot] at h₁ h₂
    split at h₁ <;> split at h₂
    · simp_all
    · have := hf.used second slot h₂
      have := Option.some.inj h₁
      omega
    · have := hf.used first slot h₁
      have := Option.some.inj h₂
      omega
    · exact hf.injective first second slot h₁ h₂

theorem extends_afterSlot (f : Frame) : Extends f.slots f.afterSlot.slots :=
  ⟨fun _ _ h => h, fun _ _ h => .inl h, Nat.le_succ _⟩

theorem sound_afterSlot {f : Frame} (hf : Sound f.slots) : Sound f.afterSlot.slots :=
  ⟨hf.positive, fun name slot hs => Nat.lt_succ_of_lt (hf.used name slot hs), hf.injective,
    Nat.lt_succ_of_lt hf.next_positive⟩

end Frame

namespace SlotTable

/-- A name keeps the slot it has, or is bound to the next one. -/
theorem allocate_cases {t t' : SlotTable} {name : String} {slot : Nat}
    (h : t.allocate name = .ok (slot, t')) :
    (t.get? name = some slot ∧ t' = t) ∨
      (t.get? name = none ∧ slot = t.next ∧ ∀ entered n,
        t' = (Frame.bindSlot ⟨entered, t, n⟩ name).slots) := by
  unfold allocate at h
  cases hn : t.get? name with
  | some known =>
      rw [hn] at h
      cases h
      exact .inl ⟨rfl, rfl⟩
  | none =>
      rw [hn, allocateAnonymous] at h
      by_cases hlt : t.next < slotLimit
      · rw [if_pos hlt] at h
        cases h
        exact .inr ⟨rfl, rfl, fun _ _ => rfl⟩
      · rw [if_neg hlt] at h
        cases h

theorem extends_allocate {t t' : SlotTable} {name : String} {slot : Nat}
    (h : t.allocate name = .ok (slot, t')) : Extends t t' := by
  rcases allocate_cases h with ⟨-, rfl⟩ | ⟨hn, -, ht⟩
  · exact .refl _
  · rw [ht [] ⟨0⟩]
    exact Frame.extends_bindSlot (f := ⟨[], t, ⟨0⟩⟩) hn

theorem sound_allocate {t t' : SlotTable} {name : String} {slot : Nat} (ht : Sound t)
    (h : t.allocate name = .ok (slot, t')) : Sound t' := by
  rcases allocate_cases h with ⟨-, rfl⟩ | ⟨-, -, heq⟩
  · exact ht
  · rw [heq [] ⟨0⟩]
    exact Frame.sound_bindSlot (f := ⟨[], t, ⟨0⟩⟩) ht

/-- The names after the first are bound in the table that the first leaves. -/
theorem allocateAll_cons {t t' : SlotTable} {name : String} {rest : List String}
    (h : t.allocateAll (name :: rest) = .ok t') :
    ∃ slot t₁, t.allocate name = .ok (slot, t₁) ∧ t₁.allocateAll rest = .ok t' := by
  rw [allocateAll] at h
  cases hn : t.allocate name with
  | error fault =>
      rw [hn] at h
      cases h
  | ok result =>
      rw [hn] at h
      exact ⟨result.1, result.2, rfl, h⟩

theorem extends_allocateAll {names : List String} {t t' : SlotTable}
    (h : t.allocateAll names = .ok t') : Extends t t' := by
  induction names generalizing t with
  | nil =>
      cases h
      exact .refl _
  | cons name rest ih =>
      obtain ⟨slot, t₁, hn, hrest⟩ := allocateAll_cons h
      exact (extends_allocate hn).trans (ih hrest)

theorem sound_allocateAll {names : List String} {t t' : SlotTable} (ht : Sound t)
    (h : t.allocateAll names = .ok t') : Sound t' := by
  induction names generalizing t with
  | nil =>
      cases h
      exact ht
  | cons name rest ih =>
      obtain ⟨slot, t₁, hn, hrest⟩ := allocateAll_cons h
      exact ih (sound_allocate ht hn) hrest

/-- Different names without a slot are bound to the next slots, in order. -/
theorem get?_allocateAll {names : List String} {t t' : SlotTable} {k : Nat} {name : String}
    (h : t.allocateAll names = .ok t') (hdistinct : names.Nodup)
    (hfree : ∀ other ∈ names, t.get? other = none) (hk : names[k]? = some name) :
    t'.get? name = some (t.next + k) := by
  induction names generalizing t k with
  | nil => simp at hk
  | cons first rest ih =>
      obtain ⟨slot, t₁, hn, hrest⟩ := allocateAll_cons h
      rcases allocate_cases hn with ⟨hsome, -⟩ | ⟨-, rfl, heq⟩
      · rw [hfree first List.mem_cons_self] at hsome
        cases hsome
      · have hget := Frame.get?_bindSlot ⟨[], t, ⟨0⟩⟩ first
        rw [← heq [] ⟨0⟩] at hget
        obtain ⟨hfirst, hrestDistinct⟩ := List.nodup_cons.mp hdistinct
        cases k with
        | zero =>
            obtain rfl : first = name := by simpa using hk
            exact (extends_allocateAll hrest).kept _ _ (by rw [hget, if_pos rfl]; rfl)
        | succ k =>
            have hnext : t₁.next = t.next + 1 := by rw [heq [] ⟨0⟩]; rfl
            have hfree₁ : ∀ other ∈ rest, t₁.get? other = none := by
              intro other ho
              have hne : other ≠ first := fun he => hfirst (he ▸ ho)
              rw [hget, if_neg hne]
              exact hfree other (List.mem_cons_of_mem _ ho)
            have hslot := ih hrest hrestDistinct hfree₁ (by simpa using hk)
            rw [hslot, hnext]
            congr 1
            omega

theorem sound_forMethod {params : List String} {t : SlotTable} (h : forMethod params = .ok t) :
    Sound t :=
  sound_allocateAll sound_empty h

/-- Parameters with different names have the slots from 1 on, in order. -/
theorem get?_forMethod {params : List String} {t : SlotTable} {k : Nat} {name : String}
    (h : forMethod params = .ok t) (hdistinct : params.Nodup) (hk : params[k]? = some name) :
    t.get? name = some (k + 1) := by
  have hslot := get?_allocateAll h hdistinct (by simp [get?, empty]) hk
  rw [hslot, Nat.add_comm]
  rfl

end SlotTable

open SlotTable (Extends Sound)

variable {S : Setting}

theorem SlotOf.extends {f f' : Frame} {name : String} {slot : Nat} (h : SlotOf S f name slot f') :
    Extends f.slots f'.slots := by
  cases h with
  | known _ => exact .refl _
  | taken hnone _ _ _ _ => exact Frame.extends_bindSlot hnone

theorem SlotOf.sound {f f' : Frame} {name : String} {slot : Nat} (h : SlotOf S f name slot f')
    (hf : Sound f.slots) : Sound f'.slots := by
  cases h with
  | known _ => exact hf
  | taken _ _ _ _ _ => exact Frame.sound_bindSlot hf

/-- A name has its slot from the time it was asked for. -/
theorem SlotOf.get? {f f' : Frame} {name : String} {slot : Nat} (h : SlotOf S f name slot f') :
    f'.slots.get? name = some slot := by
  cases h with
  | known h => exact h
  | taken _ _ _ _ _ => rw [Frame.get?_bindSlot, if_pos rfl]

theorem ExprLowered.extends {t : ExprTask} {f f' : Frame} {parts : List Fragment}
    (h : ExprLowered S t f parts f') : Extends f.slots f'.slots := by
  induction h with
  | int | bool | function | argsNil => exact .refl _
  | «variable» _ hs => exact hs.extends
  | group _ ih | not _ ih | neg _ ih | size _ ih => exact ih
  | arith _ _ ihl ihr | order _ _ ihl ihr | logic _ _ ihl ihr | equalValues _ _ _ _ ihl ihr
  | equalReferences _ _ _ _ ihl ihr | index _ _ _ _ ihl ihr | append _ _ ihl ihr
  | call _ _ _ ihl ihr | argsCopied _ _ _ ihl ihr | argsPassed _ _ _ _ ihl ihr =>
      exact ihl.trans ihr

theorem ExprLowered.sound {t : ExprTask} {f f' : Frame} {parts : List Fragment}
    (h : ExprLowered S t f parts f') : Sound f.slots → Sound f'.slots := by
  induction h with
  | int | bool | function | argsNil => exact id
  | «variable» _ hs => exact hs.sound
  | group _ ih | not _ ih | neg _ ih | size _ ih => exact ih
  | arith _ _ ihl ihr | order _ _ ihl ihr | logic _ _ ihl ihr | equalValues _ _ _ _ ihl ihr
  | equalReferences _ _ _ _ ihl ihr | index _ _ _ _ ihl ihr | append _ _ ihl ihr
  | call _ _ _ ihl ihr | argsCopied _ _ _ ihl ihr | argsPassed _ _ _ _ ihl ihr =>
      exact fun hf => ihr (ihl hf)

theorem StmtLowered.extends {t : StmtTask} {f f' : Frame} {parts : List Fragment}
    (h : StmtLowered S t f parts f') : Extends f.slots f'.slots := by
  induction h with
  | block _ ih => exact ih
  | declare he hs | assign he hs => exact he.extends.trans hs.extends
  | declareZero _ hs => exact hs.extends
  | cond ht _ _ ihp ihn => exact ht.extends.trans (ihp.trans ihn)
  | @loop f _ _ _ _ _ _ _ hc _ ihb =>
      exact f.extends_afterSlot.trans (hc.extends.trans ihb)
  | call _ hc => exact hc.extends
  | retValue _ he | display _ _ _ he | append he | size he => exact he.extends
  | ret | nil => exact .refl _
  | cons _ _ ih ihs => exact ih.trans ihs

theorem StmtLowered.sound {t : StmtTask} {f f' : Frame} {parts : List Fragment}
    (h : StmtLowered S t f parts f') : Sound f.slots → Sound f'.slots := by
  induction h with
  | block _ ih => exact ih
  | declare he hs | assign he hs => exact fun hf => hs.sound (he.sound hf)
  | declareZero _ hs => exact hs.sound
  | cond ht _ _ ihp ihn => exact fun hf => ihn (ihp (ht.sound hf))
  | loop _ hc _ ihb => exact fun hf => ihb (hc.sound (Frame.sound_afterSlot hf))
  | call _ hc => exact hc.sound
  | retValue _ he | display _ _ _ he | append he | size he => exact he.sound
  | ret | nil => exact id
  | cons _ _ ih ihs => exact fun hf => ihs (ih hf)

end JasminGen
