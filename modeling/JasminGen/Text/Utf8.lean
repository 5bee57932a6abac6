/-
  JasminGen.Text.Utf8

  Reading bytes as UTF-8. Bytes that are no text are refused with the place of the
  first malformed sequence: how many bytes before it are fine, and how long the
  longest start of a character is that stands there. If the bytes end inside a
  character there is no such length.

  Main functions: `decodeUtf8`, `decodeUtf8Lossy`.
-/

import JasminGen.Error

namespace JasminGen.Text

/-- What stands at the start of some bytes. -/
inductive Lead where
  /-- A character, and the bytes after it. -/
  | char (c : Char) (rest : List UInt8)
  /-- A malformed sequence of a length of one to three bytes, and the bytes after
      it. -/
  | malformed (length : Nat) (rest : List UInt8)
  /-- The start of a character, cut off by the end of the bytes. -/
  | incomplete

/-- Continuation bytes are those from 80 to BF. -/
def isContinuation (b : UInt8) : Bool := 0x80 ≤ b && b ≤ 0xBF

/-- The six low bits of a continuation byte. -/
def payload (b : UInt8) : Nat := b.toNat % 0x40

/-- The second bytes that may follow the first byte of a character of three or
    four bytes: those that make neither an overlong form, nor a surrogate, nor a
    number above 10FFFF. -/
def secondFits (first second : UInt8) : Bool :=
  if first == 0xE0 then 0xA0 ≤ second && second ≤ 0xBF
  else if first == 0xED then 0x80 ≤ second && second ≤ 0x9F
  else if first == 0xF0 then 0x90 ≤ second && second ≤ 0xBF
  else if first == 0xF4 then 0x80 ≤ second && second ≤ 0x8F
  else isContinuation second

/-- The character, or the malformed sequence, that starts with a given byte. -/
def lead (b : UInt8) (rest : List UInt8) : Lead :=
  if b < 0x80 then .char (Char.ofNat b.toNat) rest
  else if b < 0xC2 then .malformed 1 rest
  else if b < 0xE0 then
    match rest with
    | [] => .incomplete
    | b₁ :: rest₁ =>
      if isContinuation b₁ then .char (Char.ofNat (b.toNat % 0x20 * 0x40 + payload b₁)) rest₁
      else .malformed 1 rest
  else if b < 0xF0 then
    match rest with
    | [] => .incomplete
    | b₁ :: rest₁ =>
      if secondFits b b₁ then
        match rest₁ with
        | [] => .incomplete
        | b₂ :: rest₂ =>
          if isContinuation b₂ then
            .char (Char.ofNat (b.toNat % 0x10 * 0x1000 + payload b₁ * 0x40 + payload b₂)) rest₂
          else .malformed 2 rest₁
      else .malformed 1 rest
  else if b < 0xF5 then
    match rest with
    | [] => .incomplete
    | b₁ :: rest₁ =>
      if secondFits b b₁ then
        match rest₁ with
        | [] => .incomplete
        | b₂ :: rest₂ =>
          if isContinuation b₂ then
            match rest₂ with
            | [] => .incomplete
            | b₃ :: rest₃ =>
              if isContinuation b₃ then
                .char (Char.ofNat (b.toNat % 0x08 * 0x40000 + payload b₁ * 0x1000 +
                  payload b₂ * 0x40 + payload b₃)) rest₃
              else .malformed 3 rest₂
          else .malformed 2 rest₁
      else .malformed 1 rest
  else .malformed 1 rest

/-- The bytes after what stands at the start. -/
def Lead.rest : Lead → List UInt8
  | .char _ rest => rest
  | .malformed _ rest => rest
  | .incomplete => []

theorem Lead.rest_length_le (b : UInt8) (rest : List UInt8) :
    (lead b rest).rest.length ≤ rest.length := by
  unfold lead
  repeat' split
  all_goals simp_all [Lead.rest]
  all_goals omega

/-- Read bytes of which `before` ones have been read already. -/
def decodeFrom (before : Nat) : List UInt8 → Except Malformed (List Char)
  | [] => .ok []
  | b :: rest =>
    match h : lead b rest with
    | .char c more =>
      have : more.length ≤ rest.length := by
        have := Lead.rest_length_le b rest
        rwa [h] at this
      match decodeFrom (before + (rest.length + 1 - more.length)) more with
      | .ok text => .ok (c :: text)
      | .error reason => .error reason
    | .malformed length _ => .error ⟨before, some length⟩
    | .incomplete => .error ⟨before, none⟩
termination_by bytes => bytes.length

/-- The text that bytes stand for. -/
def decodeUtf8 (bytes : List UInt8) : Except Malformed (List Char) :=
  decodeFrom 0 bytes

/-- The text that bytes stand for, with a replacement character for each malformed
    sequence. -/
def decodeUtf8Lossy : List UInt8 → List Char
  | [] => []
  | b :: rest =>
    match h : lead b rest with
    | .char c more =>
      have : more.length ≤ rest.length := by
        have := Lead.rest_length_le b rest
        rwa [h] at this
      c :: decodeUtf8Lossy more
    | .malformed _ more =>
      have : more.length ≤ rest.length := by
        have := Lead.rest_length_le b rest
        rwa [h] at this
      Char.ofNat 0xFFFD :: decodeUtf8Lossy more
    | .incomplete => [Char.ofNat 0xFFFD]
termination_by bytes => bytes.length

end JasminGen.Text
