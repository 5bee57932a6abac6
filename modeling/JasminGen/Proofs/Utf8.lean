/-
  JasminGen.Proofs.Utf8

  Reading bytes is the inverse of writing text in UTF-8. The bytes of a character are
  compared in numbers, by `codeUnits`: the units of a character's number, a lead unit and
  up to three units of six bits each. Two things are read off them: which bytes `lead`
  takes for a character, and that texts stand in the same order as their bytes.

  Main definition: `codeUnits`. Main results: `decodeUtf8_eq_ok_iff`,
  `fromUTF8?_eq_some_iff`, `toUTF8_lt`.
-/

import JasminGen.Text.Utf8

namespace JasminGen.Text

-- ============================================================================
-- Units of characters
-- ============================================================================

/-- The numbers that characters have. -/
def IsScalar (n : Nat) : Prop := n < 0xD800 ∨ 0xDFFF < n ∧ n < 0x110000

theorem isScalar_toNat (c : Char) : IsScalar c.toNat := c.valid

theorem IsScalar.toNat_ofNat {n : Nat} (h : IsScalar n) : (Char.ofNat n).toNat = n := by
  have hvalid : n.isValidChar := h
  rw [Char.ofNat, dif_pos hvalid]
  rfl

/-- The units of a character's number in UTF-8. -/
def codeUnits (n : Nat) : List Nat :=
  if n < 0x80 then [n]
  else if n < 0x800 then [0xC0 + n / 0x40, 0x80 + n % 0x40]
  else if n < 0x10000 then [0xE0 + n / 0x1000, 0x80 + n / 0x40 % 0x40, 0x80 + n % 0x40]
  else [0xF0 + n / 0x40000, 0x80 + n / 0x1000 % 0x40, 0x80 + n / 0x40 % 0x40, 0x80 + n % 0x40]

theorem codeUnits_one {n : Nat} (h : n < 0x80) : codeUnits n = [n] :=
  if_pos h

theorem codeUnits_two {n : Nat} (h : 0x80 ≤ n ∧ n < 0x800) :
    codeUnits n = [0xC0 + n / 0x40, 0x80 + n % 0x40] := by
  rw [codeUnits, if_neg (by omega), if_pos h.2]

theorem codeUnits_three {n : Nat} (h : 0x800 ≤ n ∧ n < 0x10000) :
    codeUnits n = [0xE0 + n / 0x1000, 0x80 + n / 0x40 % 0x40, 0x80 + n % 0x40] := by
  rw [codeUnits, if_neg (by omega), if_neg (by omega), if_pos h.2]

theorem codeUnits_four {n : Nat} (h : 0x10000 ≤ n) :
    codeUnits n =
      [0xF0 + n / 0x40000, 0x80 + n / 0x1000 % 0x40, 0x80 + n / 0x40 % 0x40, 0x80 + n % 0x40] := by
  rw [codeUnits, if_neg (by omega), if_neg (by omega), if_neg (by omega)]

/-- The bytes of a character are the units of its number. -/
theorem map_toNat_encode (c : Char) :
    (String.utf8EncodeChar c).map UInt8.toNat = codeUnits c.toNat := by
  have hscalar : c.toNat < 0xD800 ∨ 0xDFFF < c.toNat ∧ c.toNat < 0x110000 := isScalar_toNat c
  have hval : c.val.toNat = c.toNat := rfl
  simp only [String.utf8EncodeChar, hval]
  split
  · rw [codeUnits_one (by omega)]
    simp; omega
  split
  · rw [codeUnits_two (by omega)]
    simp; omega
  split
  · rw [codeUnits_three (by omega)]
    simp; omega
  · rw [codeUnits_four (by omega)]
    simp; omega

theorem encode_eq_iff {c : Char} {bytes : List UInt8} :
    String.utf8EncodeChar c = bytes ↔ codeUnits c.toNat = bytes.map UInt8.toNat := by
  rw [← map_toNat_encode]
  exact (List.map_inj_right fun _ _ => UInt8.toNat_inj.mp).symm

-- ============================================================================
-- Reading one character
-- ============================================================================

theorem isContinuation_iff {b : UInt8} :
    isContinuation b = true ↔ 0x80 ≤ b.toNat ∧ b.toNat ≤ 0xBF := by
  simp [isContinuation, UInt8.le_iff_toNat_le]

theorem secondFits_iff {b b₁ : UInt8} : secondFits b b₁ = true ↔
    (0x80 ≤ b₁.toNat ∧ b₁.toNat ≤ 0xBF) ∧ (b.toNat = 0xE0 → 0xA0 ≤ b₁.toNat) ∧
      (b.toNat = 0xED → b₁.toNat ≤ 0x9F) ∧ (b.toNat = 0xF0 → 0x90 ≤ b₁.toNat) ∧
      (b.toNat = 0xF4 → b₁.toNat ≤ 0x8F) := by
  simp only [secondFits, isContinuation, beq_iff_eq, ← UInt8.toNat_inj, UInt8.le_iff_toNat_le,
    UInt8.reduceToNat]
  repeat' split
  all_goals simp only [Bool.and_eq_true, decide_eq_true_eq]
  all_goals omega

/-- Bytes are those of the character with a given number if they are its units. -/
theorem encode_ofNat {n : Nat} (h : IsScalar n) {bytes : List UInt8}
    (hbytes : codeUnits n = bytes.map UInt8.toNat) :
    String.utf8EncodeChar (Char.ofNat n) = bytes := by
  rw [encode_eq_iff, h.toNat_ofNat, hbytes]

/-- The bytes that are read as a character are those that it is written as. -/
theorem eq_encode_of_lead {b : UInt8} {rest more : List UInt8} {c : Char}
    (h : lead b rest = .char c more) : b :: rest = String.utf8EncodeChar c ++ more := by
  revert h
  fun_cases lead b rest
  case case1 hb =>
    rintro ⟨⟩
    simp only [UInt8.lt_iff_toNat_lt, UInt8.reduceToNat] at hb
    have hencode : String.utf8EncodeChar (Char.ofNat b.toNat) = [b] :=
      encode_ofNat (.inl (by omega)) (codeUnits_one hb)
    rw [hencode]
    rfl
  case case4 hlow hoverlong hhigh b₁ _ h₁ =>
    rintro ⟨⟩
    simp only [UInt8.lt_iff_toNat_lt, UInt8.reduceToNat] at hlow hoverlong hhigh
    rw [isContinuation_iff] at h₁
    have hencode : String.utf8EncodeChar (Char.ofNat (b.toNat % 0x20 * 0x40 + payload b₁)) =
        [b, b₁] := by
      apply encode_ofNat
      · simp only [IsScalar, payload]; omega
      · rw [payload, codeUnits_two (by omega)]
        simp; omega
    rw [hencode]
    rfl
  case case8 hlow hoverlong htwo hhigh b₁ h₁ b₂ _ h₂ =>
    rintro ⟨⟩
    simp only [UInt8.lt_iff_toNat_lt, UInt8.reduceToNat] at hlow hoverlong htwo hhigh
    rw [secondFits_iff] at h₁
    rw [isContinuation_iff] at h₂
    have hencode : String.utf8EncodeChar
        (Char.ofNat (b.toNat % 0x10 * 0x1000 + payload b₁ * 0x40 + payload b₂)) = [b, b₁, b₂] := by
      apply encode_ofNat
      · simp only [IsScalar, payload]; omega
      · rw [payload, payload, codeUnits_three (by omega)]
        simp; omega
    rw [hencode]
    rfl
  case case14 hlow hoverlong htwo hthree hhigh b₁ h₁ b₂ h₂ b₃ _ h₃ =>
    rintro ⟨⟩
    simp only [UInt8.lt_iff_toNat_lt, UInt8.reduceToNat] at hlow hoverlong htwo hthree hhigh
    rw [secondFits_iff] at h₁
    rw [isContinuation_iff] at h₂ h₃
    have hencode : String.utf8EncodeChar
        (Char.ofNat (b.toNat % 0x08 * 0x40000 + payload b₁ * 0x1000 + payload b₂ * 0x40 +
          payload b₃)) = [b, b₁, b₂, b₃] := by
      apply encode_ofNat
      · simp only [IsScalar, payload]; omega
      · rw [payload, payload, payload, codeUnits_four (by omega)]
        simp; omega
    rw [hencode]
    rfl
  all_goals rintro ⟨⟩

section Leads

variable {b b₁ b₂ b₃ : UInt8} (rest : List UInt8)

theorem lead_one (h : b.toNat < 0x80) : lead b rest = .char (Char.ofNat b.toNat) rest := by
  have hlow : b < 0x80 := UInt8.lt_iff_toNat_lt.mpr h
  simp [lead.eq_def, hlow]

theorem lead_two (h : 0xC2 ≤ b.toNat ∧ b.toNat < 0xE0) (h₁ : isContinuation b₁ = true) :
    lead b (b₁ :: rest) = .char (Char.ofNat (b.toNat % 0x20 * 0x40 + payload b₁)) rest := by
  have hlow : ¬ b.toNat < 0x80 := by omega
  have hoverlong : ¬ b.toNat < 0xC2 := by omega
  simp [lead, UInt8.lt_iff_toNat_lt, hlow, hoverlong, h.2, h₁]

theorem lead_three (h : 0xE0 ≤ b.toNat ∧ b.toNat < 0xF0) (h₁ : secondFits b b₁ = true)
    (h₂ : isContinuation b₂ = true) :
    lead b (b₁ :: b₂ :: rest) =
      .char (Char.ofNat (b.toNat % 0x10 * 0x1000 + payload b₁ * 0x40 + payload b₂)) rest := by
  have hlow : ¬ b.toNat < 0x80 := by omega
  have hoverlong : ¬ b.toNat < 0xC2 := by omega
  have htwo : ¬ b.toNat < 0xE0 := by omega
  simp [lead, UInt8.lt_iff_toNat_lt, hlow, hoverlong, htwo, h.2, h₁, h₂]

theorem lead_four (h : 0xF0 ≤ b.toNat ∧ b.toNat < 0xF5) (h₁ : secondFits b b₁ = true)
    (h₂ : isContinuation b₂ = true) (h₃ : isContinuation b₃ = true) :
    lead b (b₁ :: b₂ :: b₃ :: rest) =
      .char (Char.ofNat (b.toNat % 0x08 * 0x40000 + payload b₁ * 0x1000 + payload b₂ * 0x40 +
        payload b₃)) rest := by
  have hlow : ¬ b.toNat < 0x80 := by omega
  have hoverlong : ¬ b.toNat < 0xC2 := by omega
  have htwo : ¬ b.toNat < 0xE0 := by omega
  have hthree : ¬ b.toNat < 0xF0 := by omega
  simp [lead, UInt8.lt_iff_toNat_lt, hlow, hoverlong, htwo, hthree, h.2, h₁, h₂, h₃]

end Leads

theorem exists_byte {n : Nat} (h : n < 0x100) : ∃ b : UInt8, b.toNat = n :=
  ⟨UInt8.ofNat n, UInt8.toNat_ofNat_of_lt' h⟩

theorem char_eq {c : Char} {n : Nat} (h : n = c.toNat) (rest : List UInt8) :
    Lead.char (Char.ofNat n) rest = Lead.char c rest := by
  rw [h, Char.ofNat_toNat]

/-- The bytes that a character is written as are read as that character. -/
theorem lead_encode (c : Char) : ∃ b more, String.utf8EncodeChar c = b :: more ∧
    ∀ rest, lead b (more ++ rest) = .char c rest := by
  have hscalar : c.toNat < 0xD800 ∨ 0xDFFF < c.toNat ∧ c.toNat < 0x110000 := isScalar_toNat c
  rcases Nat.lt_or_ge c.toNat 0x80 with hone | hone
  · obtain ⟨b, hb⟩ := exists_byte (n := c.toNat) (by omega)
    refine ⟨b, [], encode_eq_iff.mpr ?_, fun rest => ?_⟩
    · simp [codeUnits_one hone, hb]
    · rw [List.nil_append, lead_one rest (by omega)]
      exact char_eq hb rest
  obtain ⟨last, hlast⟩ := exists_byte (n := 0x80 + c.toNat % 0x40) (by omega)
  rcases Nat.lt_or_ge c.toNat 0x800 with htwo | htwo
  · obtain ⟨b, hb⟩ := exists_byte (n := 0xC0 + c.toNat / 0x40) (by omega)
    refine ⟨b, [last], encode_eq_iff.mpr ?_, fun rest => ?_⟩
    · simp [codeUnits_two ⟨hone, htwo⟩, hb, hlast]
    · rw [List.singleton_append, lead_two rest (by omega) (isContinuation_iff.mpr (by omega))]
      exact char_eq (by simp only [payload]; omega) rest
  obtain ⟨third, hthird⟩ := exists_byte (n := 0x80 + c.toNat / 0x40 % 0x40) (by omega)
  rcases Nat.lt_or_ge c.toNat 0x10000 with hthree | hthree
  · obtain ⟨b, hb⟩ := exists_byte (n := 0xE0 + c.toNat / 0x1000) (by omega)
    refine ⟨b, [third, last], encode_eq_iff.mpr ?_, fun rest => ?_⟩
    · simp [codeUnits_three ⟨htwo, hthree⟩, hb, hthird, hlast]
    · change lead b (third :: last :: rest) = _
      rw [lead_three rest (by omega) (secondFits_iff.mpr (by omega))
        (isContinuation_iff.mpr (by omega))]
      exact char_eq (by simp only [payload]; omega) rest
  · obtain ⟨second, hsecond⟩ := exists_byte (n := 0x80 + c.toNat / 0x1000 % 0x40) (by omega)
    obtain ⟨b, hb⟩ := exists_byte (n := 0xF0 + c.toNat / 0x40000) (by omega)
    refine ⟨b, [second, third, last], encode_eq_iff.mpr ?_, fun rest => ?_⟩
    · simp [codeUnits_four hthree, hb, hsecond, hthird, hlast]
    · change lead b (second :: third :: last :: rest) = _
      rw [lead_four rest (by omega) (secondFits_iff.mpr (by omega))
        (isContinuation_iff.mpr (by omega)) (isContinuation_iff.mpr (by omega))]
      exact char_eq (by simp only [payload]; omega) rest

-- ============================================================================
-- Reading a text
-- ============================================================================

theorem decodeFrom_char {before : Nat} {b : UInt8} {rest more : List UInt8} {c : Char}
    (h : lead b rest = .char c more) :
    decodeFrom before (b :: rest) =
      (decodeFrom (before + (rest.length + 1 - more.length)) more).map (c :: ·) := by
  rw [decodeFrom]
  split
  · next c' more' h' =>
      cases h.symm.trans h'
      cases decodeFrom (before + (rest.length + 1 - more.length)) more <;> rfl
  · next h' => cases h.symm.trans h'
  · next h' => cases h.symm.trans h'

/-- A text is read from its bytes, however many were read before. -/
theorem decodeFrom_encode (text : List Char) (before : Nat) :
    decodeFrom before (text.flatMap String.utf8EncodeChar) = .ok text := by
  induction text generalizing before with
  | nil => rw [List.flatMap_nil, decodeFrom]
  | cons c text ih =>
      obtain ⟨b, more, hencode, hlead⟩ := lead_encode c
      rw [List.flatMap_cons, hencode, List.cons_append, decodeFrom_char (hlead _), ih]
      rfl

theorem eq_encode_of_decodeFrom {before : Nat} {bytes : List UInt8} {text : List Char}
    (h : decodeFrom before bytes = .ok text) : bytes = text.flatMap String.utf8EncodeChar := by
  fun_induction decodeFrom before bytes generalizing text
  case case1 =>
    cases h
    rfl
  case case2 hlead _ _ hmore ih =>
    cases h
    rw [List.flatMap_cons, eq_encode_of_lead hlead, ih hmore]
  all_goals cases h

/-- Bytes are read as a text exactly if they are the text in UTF-8. -/
theorem decodeUtf8_eq_ok_iff {bytes : List UInt8} {text : List Char} :
    decodeUtf8 bytes = .ok text ↔ bytes = text.flatMap String.utf8EncodeChar := by
  constructor
  · exact eq_encode_of_decodeFrom
  · rintro rfl
    exact decodeFrom_encode text 0

/-- The bytes of a text. -/
theorem toList_toUTF8 (text : String) :
    text.toUTF8.data.toList = text.toList.flatMap String.utf8EncodeChar := by
  rw [String.toUTF8_eq_toByteArray, ← String.utf8Encode_toList, List.utf8Encode,
    List.toList_data_toByteArray]

/-- Bytes are a text in UTF-8 exactly if they are read as that text. -/
theorem fromUTF8?_eq_some_iff {bytes : List UInt8} {text : String} :
    String.fromUTF8? bytes.toByteArray = some text ↔ decodeUtf8 bytes = .ok text.toList := by
  rw [decodeUtf8_eq_ok_iff, ← toList_toUTF8, String.fromUTF8?]
  constructor
  · intro h
    split at h
    · cases h
      exact List.toList_data_toByteArray.symm
    · cases h
  · rintro rfl
    have hbytes : text.toUTF8.data.toList.toByteArray = text.toUTF8 := by
      apply ByteArray.ext
      rw [← Array.toList_inj, List.toList_data_toByteArray]
    have hvalid : text.toUTF8.data.toList.toByteArray.IsValidUTF8 := by
      rw [hbytes]
      exact text.isValidUTF8
    rw [dif_pos hvalid]
    exact congrArg some (String.toByteArray_inj.mp hbytes)

theorem decodeUtf8_of_fromUTF8?_eq_none {bytes : List UInt8}
    (h : String.fromUTF8? bytes.toByteArray = none) : ∃ reason, decodeUtf8 bytes = .error reason := by
  cases hdecode : decodeUtf8 bytes with
  | error reason => exact ⟨reason, rfl⟩
  | ok text =>
      have hsome : String.fromUTF8? bytes.toByteArray = some (String.ofList text) :=
        fromUTF8?_eq_some_iff.mpr (by rw [hdecode, String.toList_ofList])
      rw [h] at hsome
      cases hsome

-- ============================================================================
-- Order
-- ============================================================================

theorem map_toNat_lt_iff {bytes bytes' : List UInt8} :
    bytes.map UInt8.toNat < bytes'.map UInt8.toNat ↔ bytes < bytes' := by
  induction bytes generalizing bytes' with
  | nil => cases bytes' <;> simp
  | cons b bytes ih =>
      cases bytes' with
      | nil => simp
      | cons b' bytes' =>
          rw [List.map_cons, List.map_cons, List.cons_lt_cons_iff, List.cons_lt_cons_iff, ih,
            UInt8.lt_iff_toNat_lt, UInt8.toNat_inj]

/-- The units of a smaller number come first, whatever stands behind. -/
theorem codeUnits_lt {m n : Nat} (h : m < n) (xs ys : List Nat) :
    codeUnits m ++ xs < codeUnits n ++ ys := by
  unfold codeUnits
  repeat' split
  all_goals simp only [List.cons_append, List.nil_append, List.cons_lt_cons_iff]
  all_goals omega

theorem encode_lt {c d : Char} (h : c < d) (xs ys : List UInt8) :
    String.utf8EncodeChar c ++ xs < String.utf8EncodeChar d ++ ys := by
  rw [← map_toNat_lt_iff, List.map_append, List.map_append, map_toNat_encode, map_toNat_encode]
  exact codeUnits_lt h _ _

theorem flatMap_encode_lt {text text' : List Char} (h : text < text') :
    text.flatMap String.utf8EncodeChar < text'.flatMap String.utf8EncodeChar := by
  induction text generalizing text' with
  | nil =>
      cases text' with
      | nil => exact absurd h (List.lt_irrefl [])
      | cons d text' =>
          obtain ⟨b, more, hencode, -⟩ := lead_encode d
          rw [List.flatMap_cons, hencode]
          exact List.nil_lt_cons _ _
  | cons c text ih =>
      cases text' with
      | nil => exact absurd h (List.not_lt_nil _)
      | cons d text' =>
          rw [List.flatMap_cons, List.flatMap_cons]
          rcases List.cons_lt_cons_iff.mp h with hlt | ⟨rfl, hlt⟩
          · exact encode_lt hlt _ _
          · exact List.append_left_lt (ih hlt)

/-- Texts stand in the order of their bytes. -/
theorem toUTF8_lt {text text' : String} (h : text < text') :
    text.toUTF8.data.toList < text'.toUTF8.data.toList := by
  rw [toList_toUTF8, toList_toUTF8]
  exact flatMap_encode_lt h

end JasminGen.Text
