/-
  JasminGen.Proofs.Descriptors

  What a descriptor says. The descriptor of a type ends at its first `;`, or is a single
  `V`, so it can be told from whatever follows it; and none starts with the bracket that
  closes the parameters. Hence two methods have the same descriptor exactly if they have as
  many parameters, of the same classes in the same order, and results of the same class.
  Names of structs may hold brackets or the letters `L` and `V`, but no `;`.

  Main definition: `Ty.Delimited`. Main results: `Ty.descriptor_append_inj`,
  `Ty.descriptors_append_inj`, `methodDescriptor_eq_iff`.
-/

import JasminGen.Ty

namespace JasminGen

-- ============================================================================
-- Texts and lists
-- ============================================================================

/-- What stands before the first mark and what stands behind it can be told from the whole. -/
theorem append_mark_inj {mark : Char} {front front' rest rest' : List Char}
    (hfront : mark ∉ front) (hfront' : mark ∉ front')
    (h : front ++ mark :: rest = front' ++ mark :: rest') : front = front' ∧ rest = rest' := by
  induction front generalizing front' with
  | nil =>
      cases front' with
      | nil => exact ⟨rfl, (List.cons.inj h).2⟩
      | cons c front' =>
          obtain ⟨rfl, -⟩ := List.cons.inj h
          exact absurd List.mem_cons_self hfront'
  | cons c front ih =>
      cases front' with
      | nil =>
          obtain ⟨rfl, -⟩ := List.cons.inj h
          exact absurd List.mem_cons_self hfront
      | cons c' front' =>
          obtain ⟨rfl, htail⟩ := List.cons.inj h
          obtain ⟨rfl, rfl⟩ := ih (mt (List.mem_cons_of_mem _) hfront)
            (mt (List.mem_cons_of_mem _) hfront') htail
          exact ⟨rfl, rfl⟩

theorem map_eq_map_iff_getElem? {α β : Type} (f : α → β) {xs ys : List α} :
    xs.map f = ys.map f ↔
      xs.length = ys.length ∧ ∀ (i : Nat) x y, xs[i]? = some x → ys[i]? = some y → f x = f y := by
  constructor
  · intro h
    refine ⟨by simpa using congrArg List.length h, ?_⟩
    intro i x y hx hy
    have hi : (xs.map f)[i]? = (ys.map f)[i]? := by rw [h]
    rw [List.getElem?_map, List.getElem?_map, hx, hy] at hi
    exact Option.some.inj hi
  · rintro ⟨hlength, hsame⟩
    refine List.ext_getElem (by simpa using hlength) ?_
    intro i hi hi'
    rw [List.getElem_map, List.getElem_map]
    exact hsame i _ _ (List.getElem?_eq_getElem _) (List.getElem?_eq_getElem _)

-- ============================================================================
-- Descriptors of types
-- ============================================================================

namespace Ty

/-- If the type is a struct, no `;` stands in its name. -/
def Delimited : Ty → Prop
  | .struct name => ';' ∉ name.toList
  | .int | .bool | .void | .list _ | .fptr _ _ => True

instance : DecidablePred Delimited
  | .struct name => inferInstanceAs (Decidable (';' ∉ name.toList))
  | .int | .bool | .void | .list _ | .fptr _ _ => isTrue trivial

variable {p q : Ty} {xs ys : List Char}

theorem Delimited.notMem_className (h : p.Delimited) :
    ∀ name, p.className? = some name → ';' ∉ name.toList := by
  intro name hname
  cases p with
  | struct => exact Option.some.inj hname ▸ h
  | void => cases hname
  | int | bool | list | fptr => cases hname; decide

/-- The letters of the descriptor for a class, or for none. -/
def classLetters : Option String → List Char
  | some name => 'L' :: (name.toList ++ [';'])
  | none => ['V']

theorem toList_descriptor (ty : Ty) : ty.descriptor.toList = classLetters ty.className? := by
  rw [descriptor]
  cases ty.className? with
  | none => rfl
  | some name => rw [String.toList_append, String.toList_append]; rfl

theorem descriptor_congr (h : p.className? = q.className?) : p.descriptor = q.descriptor := by
  rw [descriptor, descriptor, h]

theorem classLetters_append_inj {class? class?' : Option String}
    (hclass : ∀ name, class? = some name → ';' ∉ name.toList)
    (hclass' : ∀ name, class?' = some name → ';' ∉ name.toList)
    (h : classLetters class? ++ xs = classLetters class?' ++ ys) :
    class? = class?' ∧ xs = ys := by
  cases class? with
  | none =>
      cases class?' with
      | none => exact ⟨rfl, (List.cons.inj h).2⟩
      | some name' => exact absurd (List.cons.inj h).1 (by decide)
  | some name =>
      cases class?' with
      | none => exact absurd (List.cons.inj h).1 (by decide)
      | some name' =>
          have htail : name.toList ++ ';' :: xs = name'.toList ++ ';' :: ys := by
            simpa [classLetters] using h
          obtain ⟨hname, rfl⟩ := append_mark_inj (hclass name rfl) (hclass' name' rfl) htail
          exact ⟨congrArg some (String.toList_inj.mp hname), rfl⟩

/-- The descriptor of a type shows its class and where it ends, whatever follows. -/
theorem descriptor_append_inj (hp : p.Delimited) (hq : q.Delimited)
    (h : p.descriptor.toList ++ xs = q.descriptor.toList ++ ys) :
    p.className? = q.className? ∧ xs = ys := by
  rw [toList_descriptor, toList_descriptor] at h
  exact classLetters_append_inj hp.notMem_className hq.notMem_className h

theorem descriptor_append_ne (p : Ty) (xs ys : List Char) :
    p.descriptor.toList ++ xs ≠ ')' :: ys := by
  rw [toList_descriptor]
  cases p.className? with
  | none | some => simp [classLetters]

/-- Descriptors in a row, up to a closing bracket, show their number and their classes. -/
theorem descriptors_append_inj {ps qs : List Ty} (hps : ∀ p ∈ ps, p.Delimited)
    (hqs : ∀ q ∈ qs, q.Delimited)
    (h : ps.flatMap (·.descriptor.toList) ++ ')' :: xs =
      qs.flatMap (·.descriptor.toList) ++ ')' :: ys) :
    ps.map className? = qs.map className? ∧ xs = ys := by
  -- both lists are taken apart together: where one ends, a bracket stands in the text
  induction ps generalizing qs with
  | nil =>
      cases qs with
      | nil => exact ⟨rfl, (List.cons.inj h).2⟩
      | cons q qs =>
          rw [List.flatMap_cons, List.append_assoc] at h
          exact absurd h.symm (descriptor_append_ne q _ _)
  | cons p ps ih =>
      rw [List.flatMap_cons, List.append_assoc] at h
      cases qs with
      | nil => exact absurd h (descriptor_append_ne p _ _)
      | cons q qs =>
          rw [List.flatMap_cons, List.append_assoc] at h
          obtain ⟨hp, hps⟩ := List.forall_mem_cons.mp hps
          obtain ⟨hq, hqs⟩ := List.forall_mem_cons.mp hqs
          obtain ⟨hclass, htail⟩ := descriptor_append_inj hp hq h
          obtain ⟨hclasses, hrest⟩ := ih hps hqs htail
          exact ⟨by rw [List.map_cons, List.map_cons, hclass, hclasses], hrest⟩

end Ty

-- ============================================================================
-- Descriptors of methods
-- ============================================================================

theorem toList_methodDescriptor (params : List Ty) (result : Ty) :
    (methodDescriptor params result).toList =
      '(' :: (params.flatMap (·.descriptor.toList) ++ ')' :: result.descriptor.toList) := by
  rw [methodDescriptor, String.toList_append, String.toList_append, String.toList_append,
    String.toList_join, List.flatMap_map]
  simp

/-- Descriptors of methods are equal exactly if there are as many parameters, their classes are
    the same one by one, and so are the classes of the results. -/
theorem methodDescriptor_eq_iff (ps qs : List Ty) (r s : Ty) (hps : ∀ p ∈ ps, p.Delimited)
    (hqs : ∀ q ∈ qs, q.Delimited) (hr : r.Delimited) (hs : s.Delimited) :
    methodDescriptor ps r = methodDescriptor qs s ↔
      ps.length = qs.length ∧
      (∀ (i : Nat) p q, ps[i]? = some p → qs[i]? = some q → p.className? = q.className?) ∧
      r.className? = s.className? := by
  constructor
  · intro h
    have htext := congrArg String.toList h
    rw [toList_methodDescriptor, toList_methodDescriptor] at htext
    obtain ⟨hclasses, hresult⟩ := Ty.descriptors_append_inj hps hqs (List.cons.inj htext).2
    obtain ⟨hlength, hclass⟩ := (map_eq_map_iff_getElem? Ty.className?).mp hclasses
    exact ⟨hlength, hclass, (Ty.descriptor_append_inj hr hs (congrArg (· ++ []) hresult)).1⟩
  · rintro ⟨hlength, hclass, hresult⟩
    have hparams : ps.map Ty.descriptor = qs.map Ty.descriptor :=
      (map_eq_map_iff_getElem? Ty.descriptor).mpr
        ⟨hlength, fun i p q hp hq => Ty.descriptor_congr (hclass i p q hp hq)⟩
    rw [methodDescriptor, methodDescriptor, hparams, Ty.descriptor_congr hresult]

/-- A struct may have a name that looks like a descriptor, or that of a support class. -/
theorem methodDescriptor_eq_iff_bracketed :
    (∀ p ∈ [Ty.struct "V)V", .void, .list .int], p.Delimited) ∧
      (∀ q ∈ [Ty.struct "V)V", .void, .struct "List"], q.Delimited) ∧
      (Ty.fptr [.int] .bool).Delimited ∧ (Ty.struct "Fptr").Delimited ∧
      methodDescriptor [.struct "V)V", .void, .list .int] (.fptr [.int] .bool) =
        methodDescriptor [.struct "V)V", .void, .struct "List"] (.struct "Fptr") := by
  have hps : ∀ p ∈ [Ty.struct "V)V", .void, .list .int], p.Delimited := by decide
  have hqs : ∀ q ∈ [Ty.struct "V)V", .void, .struct "List"], q.Delimited := by decide
  have hr : (Ty.fptr [.int] .bool).Delimited := by decide
  have hs : (Ty.struct "Fptr").Delimited := by decide
  have hclasses : [Ty.struct "V)V", .void, .list .int].map Ty.className? =
      [Ty.struct "V)V", .void, .struct "List"].map Ty.className? := rfl
  obtain ⟨hlength, hclass⟩ := (map_eq_map_iff_getElem? Ty.className?).mp hclasses
  exact ⟨hps, hqs, hr, hs,
    (methodDescriptor_eq_iff _ _ _ _ hps hqs hr hs).mpr ⟨hlength, hclass, rfl⟩⟩

-- with a `;` in its name a struct is taken for two
example : methodDescriptor [.struct "A;LB"] .void =
    methodDescriptor [.struct "A", .struct "B"] .void := by decide

end JasminGen
