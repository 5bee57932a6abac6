/-
  JasminGen.Text.Ansi

  Terminal colours: wrapping a text in a colour sequence, and removing control
  sequences from a text again.

  Removal reads a text with the states of a terminal. Outside a sequence it
  keeps every character but the control characters, of which only the line feed
  and the delete character stay. An escape character starts a sequence, and
  nothing of a sequence is kept except a line feed between its characters.

  A terminal reads bytes. That shows in one place: the data of a device control
  string ends at the byte 0x9C, also in the middle of a character, and the bytes
  that follow in the same character are then no text of their own.

  Main functions: `paint`, `strip`.
-/

namespace JasminGen.Text

/-- The colours of diagnostics and of rendered source. -/
inductive Color where
  | boldGreen
  | blue
  | magenta
  | cyan
  | yellow
  deriving DecidableEq

/-- The parameters of the sequence that selects a colour. -/
def Color.code : Color → String
  | .boldGreen => "1;32"
  | .blue => "34"
  | .magenta => "35"
  | .cyan => "36"
  | .yellow => "33"

/-- A text in a colour: between the sequence that selects the colour and the one
    that resets it, or unchanged when colours are off. -/
def paint (colored : Bool) (color : Color) (text : String) : String :=
  if colored then "\x1b[" ++ color.code ++ "m" ++ text ++ "\x1b[0m" else text

@[simp] theorem paint_false (color : Color) (text : String) :
    paint false color text = text := rfl

/-! ## Removing control sequences -/

/-- The parts of a device control string, `ESC P`. -/
inductive DevicePart where
  /-- Before its first character. -/
  | start
  /-- In its parameters. -/
  | parameters
  /-- After one of its intermediate characters. -/
  | intermediate
  /-- In the data, which the final character opens. -/
  | data
  deriving DecidableEq

/-- Where in a control sequence a terminal stands. -/
inductive Scan where
  /-- Outside of any sequence. -/
  | plain
  /-- Right after an escape character. -/
  | escape
  /-- In an escape sequence, after one of its intermediate characters. -/
  | intermediate
  /-- In a control sequence, `ESC [` with parameters. -/
  | sequence
  /-- In a device control string. -/
  | device (part : DevicePart)
  /-- In another control string, which a bell may also end. -/
  | string (bellEnds : Bool)
  deriving DecidableEq

/-- Control characters that cut off any sequence: cancel and substitute. -/
def cancels (c : Char) : Bool :=
  c.toNat == 0x18 || c.toNat == 0x1A

/-- Control characters that a terminal acts on and does not show. -/
def isControl (c : Char) : Bool :=
  c.toNat < 0x20 || (0x80 ≤ c.toNat && c.toNat < 0xA0)

/-- The byte that ends the data of a device control string. -/
def stringTerminator : UInt8 := 0x9C

/-- The bytes of a character that follow a string terminator among them. -/
def afterTerminator? (c : Char) : Option (List UInt8) :=
  match (String.utf8EncodeChar c).dropWhile (· != stringTerminator) with
  | [] => none
  | _ :: rest => some rest

/-- What a byte that belongs to no character shows: nothing if it is a control
    byte, a replacement character otherwise. -/
def strayByte (byte : UInt8) : List Char :=
  if byte < 0xA0 then [] else ['\uFFFD']

/-- The state after a character of a device control string. A parameter in the
    wrong place leaves a string that only a new sequence or a cancellation ends. -/
def DevicePart.next (part : DevicePart) (c : Char) : Scan :=
  let n := c.toNat
  match part with
  | .data => if (afterTerminator? c).isSome then .plain else .device .data
  | .start =>
    if n < 0x20 || 0x7F ≤ n then .device .start
    else if n < 0x30 then .device .intermediate
    else if n < 0x40 then .device .parameters
    else .device .data
  | .parameters =>
    if n < 0x20 || 0x7F ≤ n then .device .parameters
    else if n < 0x30 then .device .intermediate
    else if n < 0x3C then .device .parameters
    else if n < 0x40 then .string false
    else .device .data
  | .intermediate =>
    if n < 0x30 || 0x7F ≤ n then .device .intermediate
    else if n < 0x40 then .string false
    else .device .data

/-- The state after a character. -/
def Scan.next (state : Scan) (c : Char) : Scan :=
  let n := c.toNat
  if n == 0x1B then .escape
  else if cancels c then .plain
  else match state with
    | .plain => .plain
    | .escape =>
      if n < 0x20 then .escape
      else if n < 0x30 then .intermediate
      else if c == '[' then .sequence
      else if c == ']' then .string true
      else if c == 'P' then .device .start
      else if c == 'X' || c == '^' || c == '_' then .string false
      else if n < 0x7F then .plain
      else .escape
    | .intermediate => if 0x30 ≤ n && n < 0x7F then .plain else .intermediate
    | .sequence => if 0x40 ≤ n && n < 0x7F then .plain else .sequence
    | .device part => part.next c
    | .string bellEnds => if bellEnds && n == 0x07 then .plain else .string bellEnds

/-- What a character read in a state leaves of itself in the text. -/
def Scan.shown (state : Scan) (c : Char) : List Char :=
  match state with
  | .plain => if c == '\n' || !isControl c then [c] else []
  | .escape | .intermediate | .sequence => if c == '\n' then [c] else []
  | .device .data => ((afterTerminator? c).getD []).flatMap strayByte
  | .device _ | .string _ => []

/-- What stays of a text that is read from a given state. -/
def stripFrom (state : Scan) : List Char → List Char
  | [] => []
  | c :: rest => state.shown c ++ stripFrom (state.next c) rest

/-- A text without control sequences, and without control characters other than
    line feeds. -/
def strip (text : String) : String :=
  String.ofList (stripFrom .plain text.toList)

@[simp] theorem stripFrom_nil (state : Scan) : stripFrom state [] = [] := rfl

theorem stripFrom_cons (state : Scan) (c : Char) (rest : List Char) :
    stripFrom state (c :: rest) = state.shown c ++ stripFrom (state.next c) rest := rfl

end JasminGen.Text
