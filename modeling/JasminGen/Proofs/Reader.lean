/-
  JasminGen.Proofs.Reader

  Reading code back from the text of a unit. A line is an instruction, the declaration of
  a label, or no code at all: an empty line, a directive or a comment. An instruction is
  the name of an operation and, behind a blank, its operand, which ends with the line.
  What every name and every method reference stands for is said here once more.

  Main definitions: `operations`, `readLine`, `readConstructor`. Main results:
  `Instr.Legible.read`, `readBody_actions`.
-/

import JasminGen.Proofs.Lines

namespace JasminGen

-- ============================================================================
-- Operands
-- ============================================================================

/-- Read a number without a sign. -/
def readNat (digits : List Char) : Option Nat :=
  if digits ≠ [] ∧ digits.all Char.isDigit then some (Nat.ofDigitChars 10 digits 0) else none

/-- Read an integer constant. -/
def readInt : List Char → Option Int32
  | '-' :: digits => (readNat digits).map fun (n : Nat) => Int32.ofInt (-n)
  | digits => (readNat digits).map fun (n : Nat) => Int32.ofInt n

/-- Read the name of a label. -/
def readLabel : List Char → Option Label
  | 'L' :: 'a' :: 'b' :: 'e' :: 'l' :: '_' :: digits =>
    (readNat digits).bind fun n => if n < UInt32.size then some ⟨UInt32.ofNat n⟩ else none
  | _ => none

/-- Read a constant: an integer, or a text in quotes. -/
def readConstant : List Char → Option Instr
  | '"' :: rest =>
    if rest.getLast? = some '"' then some (.ldcText (String.ofList rest.dropLast)) else none
  | operand => (readInt operand).map .ldcInt

/-- Read a slot that is counted down. -/
def readDecrement (operand : List Char) : Option Instr :=
  if operand.dropWhile (· != ' ') = [' ', '-', '1'] then
    (readNat (operand.takeWhile (· != ' '))).map .decrement
  else none

-- ============================================================================
-- Instructions
-- ============================================================================

/-- How an operation reads its operand. -/
abbrev OperandReader := List Char → Option Instr

namespace OperandReader

def plain (i : Instr) : OperandReader := fun operand => if operand = [] then some i else none

def slot (i : Nat → Instr) : OperandReader := fun operand => (readNat operand).map i

def target (i : Label → Instr) : OperandReader := fun operand => (readLabel operand).map i

def name (i : String → Instr) : OperandReader := fun operand => some (i (String.ofList operand))

/-- One of several fixed operands. -/
def fixed (table : List (String × Instr)) : OperandReader :=
  fun operand => table.lookup (String.ofList operand)

end OperandReader

open OperandReader

/-- The operations of the machine by their names. -/
def operations : List (String × OperandReader) :=
  [("nop", plain .nop), ("aconst_null", plain .aconstNull), ("iconst_0", plain .iconst0),
    ("iconst_1", plain .iconst1), ("ldc", readConstant), ("aload", slot .aload),
    ("astore", slot .astore), ("iload", slot .iload), ("istore", slot .istore),
    ("iinc", readDecrement), ("pop", plain .pop), ("dup", plain .dup), ("iadd", plain .iadd),
    ("isub", plain .isub), ("imul", plain .imul), ("idiv", plain .idiv), ("ineg", plain .ineg),
    ("ixor", plain .ixor), ("ifeq", target (.branch .ifeq)), ("ifne", target (.branch .ifne)),
    ("ifgt", target (.branch .ifgt)), ("if_icmpne", target (.branch .ifIcmpne)),
    ("if_icmpge", target (.branch .ifIcmpge)), ("if_icmple", target (.branch .ifIcmple)),
    ("if_acmpne", target (.branch .ifAcmpne)), ("goto", target .goto), ("return", plain .ret),
    ("getstatic", fixed [("java/lang/System/out Ljava/io/PrintStream;", .getSystemOut)]),
    ("invokestatic", fixed
      [("java/lang/Integer/valueOf(I)Ljava/lang/Integer;", .invoke .integerValueOf),
        ("java/lang/Boolean/valueOf(Z)Ljava/lang/Boolean;", .invoke .booleanValueOf)]),
    ("invokevirtual", fixed
      [("java/lang/Integer/intValue()I", .invoke .integerIntValue),
        ("java/lang/Boolean/booleanValue()Z", .invoke .booleanBooleanValue),
        ("List/getElement(I)Ljava/lang/Object;", .invoke .listGetElement),
        ("List/addElement(Ljava/lang/Object;)V", .invoke .listAddElement),
        ("List/getSize()I", .invoke .listGetSize),
        ("java/io/PrintStream/println(I)V", .invoke .printlnInt),
        ("java/io/PrintStream/println(Z)V", .invoke .printlnBool)]),
    ("invokespecial", fixed
      [("java/lang/Object/<init>()V", .invoke .objectInit), ("List/<init>()V", .invoke .listInit),
        ("Fptr/<init>(Ljava/lang/Object;Ljava/lang/String;)V", .invoke .fptrInit)]),
    ("new", name .new), ("checkcast", name .checkcast)]

/-- Read an instruction: a word up to the first blank, and the operand after it. -/
def readInstr (line : List Char) : Option Instr :=
  (operations.lookup (String.ofList (line.takeWhile (· != ' ')))).bind fun read =>
    read ((line.dropWhile (· != ' ')).drop 1)

-- ============================================================================
-- Lines
-- ============================================================================

/-- Read the code of a trimmed line. -/
def readLine (line : List Char) : Option (List Code) :=
  match line.head? with
  | none | some '.' | some ';' => some []
  | some 'L' =>
    if line.getLast? = some ':' then (readLabel line.dropLast).map fun l => [.label l] else none
  | some _ => (readInstr line).map fun i => [.instr i]

/-- Read lines up to the end of a method. -/
def readBody : List (List Char) → Option (List Code)
  | [] => none
  | line :: rest =>
    if line = ".end method".toList then some []
    else do pure ((← readLine line) ++ (← readBody rest))

/-- Read the instructions of the constructor in the text of a unit. -/
def readConstructor (text : String) : Option (List Code) :=
  match ((Text.lines text.toList).map Text.trim).dropWhile
    (· != ".method public <init>()V".toList) with
  | [] => none
  | _ :: body => readBody body

-- ============================================================================
-- Operands are read back
-- ============================================================================

theorem toList_toString_nat (n : Nat) : (toString n).toList = Nat.toDigits 10 n :=
  Nat.toList_repr

theorem isDigit_of_mem_toString {n : Nat} {c : Char} (h : c ∈ (toString n).toList) :
    c.isDigit = true := by
  rw [toList_toString_nat] at h
  exact Nat.isDigit_of_mem_toDigits (by decide) (by decide) h

theorem toString_nat_ne_nil (n : Nat) : (toString n).toList ≠ [] := by
  rw [toList_toString_nat]
  exact Nat.toDigits_ne_nil

theorem readNat_toString (n : Nat) : readNat (toString n).toList = some n := by
  rw [readNat, if_pos]
  · rw [toList_toString_nat, Nat.ofDigitChars_ten_toDigits]
  · exact ⟨toString_nat_ne_nil n, List.all_eq_true.mpr fun c hc => isDigit_of_mem_toString hc⟩

theorem head?_toString_ne {n : Nat} {c : Char} (h : c.isDigit = false) :
    (toString n).toList.head? ≠ some c := by
  intro hc
  rw [isDigit_of_mem_toString (List.mem_of_head? hc)] at h
  cases h

theorem toList_toString_int (k : Int) :
    (∃ n : Nat, (toString k).toList = (toString n).toList ∧ k = n) ∨
      ∃ n : Nat, (toString k).toList = '-' :: (toString n).toList ∧ k = -n := by
  cases k with
  | ofNat n => exact .inl ⟨n, rfl, rfl⟩
  | negSucc n =>
      refine .inr ⟨n + 1, ?_, rfl⟩
      change ("-" ++ toString (n + 1)).toList = _
      rw [String.toList_append]
      rfl

theorem readInt_toString (k : Int) : readInt (toString k).toList = some (Int32.ofInt k) := by
  rcases toList_toString_int k with ⟨n, hlist, rfl⟩ | ⟨n, hlist, rfl⟩
  · rw [hlist, readInt.eq_def]
    split
    · next hsign =>
        have hne : (toString n).toList.head? ≠ some '-' := head?_toString_ne rfl
        rw [hsign] at hne
        exact absurd rfl hne
    · rw [readNat_toString, Option.map_some]
  · rw [hlist, readInt, readNat_toString, Option.map_some]

theorem Label.toList_text (l : Label) : l.text.toList =
    'L' :: 'a' :: 'b' :: 'e' :: 'l' :: '_' :: (toString l.number.toNat).toList := by
  rw [text, String.toList_append]
  rfl

theorem readLabel_text (l : Label) : readLabel l.text.toList = some l := by
  rw [l.toList_text, readLabel, readNat_toString, Option.bind_some, if_pos l.number.toNat_lt]
  simp

theorem slot_toString (i : Nat → Instr) (k : Nat) : slot i (toString k).toList = some (i k) := by
  rw [slot, readNat_toString, Option.map_some]

theorem target_text (i : Label → Instr) (l : Label) : target i l.text.toList = some (i l) := by
  rw [target, readLabel_text, Option.map_some]

theorem readDecrement_toString (k : Nat) :
    readDecrement (toString k ++ " -1").toList = some (.decrement k) := by
  have hdigit : ∀ c ∈ (toString k).toList, (c != ' ') = true := by
    intro c hc
    have hc := isDigit_of_mem_toString hc
    rw [bne_iff_ne]
    rintro rfl
    cases hc
  have hlist : (toString k ++ " -1").toList = (toString k).toList ++ [' ', '-', '1'] := by
    rw [String.toList_append]
    rfl
  rw [readDecrement, hlist, List.dropWhile_append_of_pos hdigit,
    List.takeWhile_append_of_pos hdigit]
  change (readNat ((toString k).toList ++ [])).map Instr.decrement = _
  rw [List.append_nil, readNat_toString, Option.map_some]

theorem readConstant_quoted (text : String) :
    readConstant ("\"" ++ text ++ "\"").toList = some (.ldcText text) := by
  have hlist : ("\"" ++ text ++ "\"").toList = '"' :: (text.toList ++ ['"']) := by
    rw [String.toList_append, String.toList_append]
    rfl
  rw [hlist, readConstant, List.getLast?_concat, if_pos rfl, List.dropLast_concat,
    String.ofList_toList]

theorem readConstant_int (n : Int32) :
    readConstant (toString n.toInt).toList = some (.ldcInt n) := by
  rw [readConstant.eq_def]
  split
  · next hquote =>
      rcases toList_toString_int n.toInt with ⟨k, hlist, -⟩ | ⟨k, hlist, -⟩
      · have hne : (toString k).toList.head? ≠ some '"' := head?_toString_ne rfl
        rw [← hlist, hquote] at hne
        exact absurd rfl hne
      · rw [hlist] at hquote
        cases hquote
  · rw [readInt_toString, Int32.ofInt_toInt]
    rfl

-- ============================================================================
-- Instructions are read back
-- ============================================================================

open Text (isBlank trim trimEnd Trimmed)

theorem not_isBlank_of_all {text : List Char} (h : (text.all fun d => !isBlank d) = true) :
    ∀ d ∈ text, isBlank d = false := by
  simpa using h

/-- The name of an operation is a word, which starts neither like a directive or a comment
    nor like a label. -/
theorem Opcode.mnemonic_word (op : Opcode) : ∃ c rest, op.mnemonic.toList = c :: rest ∧
    c ≠ '.' ∧ c ≠ ';' ∧ c ≠ 'L' ∧ ∀ d ∈ c :: rest, isBlank d = false := by
  cases op <;>
    exact ⟨_, _, rfl, by decide, by decide, by decide, not_isBlank_of_all (by decide)⟩

section Words

variable {op : Opcode} {read : OperandReader}

/-- A line that starts with the name of an operation is an instruction. -/
theorem readLine_mnemonic (operand : List Char) :
    readLine (op.mnemonic.toList ++ operand) =
      (readInstr (op.mnemonic.toList ++ operand)).map fun i => [.instr i] := by
  obtain ⟨c, rest, hword, hdot, hsemicolon, hlabel, -⟩ := op.mnemonic_word
  rw [readLine, hword, List.cons_append, List.head?_cons]
  split
  · next h => cases h
  · next h => exact absurd (Option.some.inj h) hdot
  · next h => exact absurd (Option.some.inj h) hsemicolon
  · next h => exact absurd (Option.some.inj h) hlabel
  · rfl

theorem Opcode.ne_blank_of_mem {c : Char} (h : c ∈ op.mnemonic.toList) : isBlank c = false := by
  obtain ⟨_, _, hword, -, -, -, hblank⟩ := op.mnemonic_word
  exact hblank c (hword ▸ h)

theorem Opcode.ne_space_of_mem {c : Char} (h : c ∈ op.mnemonic.toList) : (c != ' ') = true := by
  have hblank := ne_blank_of_mem h
  rw [bne_iff_ne]
  rintro rfl
  cases hblank

theorem readLine_word (hop : operations.lookup op.mnemonic = some read) :
    readLine op.mnemonic.toList = (read []).map fun i => [.instr i] := by
  rw [← List.append_nil op.mnemonic.toList, readLine_mnemonic, readInstr,
    List.takeWhile_append_of_pos fun c => Opcode.ne_space_of_mem,
    List.dropWhile_append_of_pos fun c => Opcode.ne_space_of_mem, List.takeWhile_nil,
    List.append_nil, String.ofList_toList, hop]
  rfl

theorem readLine_operand (hop : operations.lookup op.mnemonic = some read) (operand : List Char) :
    readLine (op.mnemonic.toList ++ ' ' :: operand) =
      (read operand).map fun i => [.instr i] := by
  rw [readLine_mnemonic, readInstr,
    List.takeWhile_append_of_pos fun c => Opcode.ne_space_of_mem,
    List.dropWhile_append_of_pos fun c => Opcode.ne_space_of_mem,
    List.takeWhile_cons_of_neg (by simp), List.dropWhile_cons_of_neg (by simp), List.append_nil,
    String.ofList_toList, hop]
  rfl

theorem Opcode.trimEnd_mnemonic (op : Opcode) : trimEnd op.mnemonic.toList = op.mnemonic.toList :=
  Text.trimEnd_eq fun _ hc => Opcode.ne_blank_of_mem (List.mem_of_getLast? hc)

theorem Opcode.trim_append (op : Opcode) (operand : List Char) :
    trim (op.mnemonic.toList ++ operand) = trimEnd (op.mnemonic.toList ++ operand) := by
  obtain ⟨c, rest, hword, -, -, -, hblank⟩ := op.mnemonic_word
  rw [trim, Text.trimStart_eq]
  rw [hword]
  intro d hd
  exact hblank d (Option.some.inj hd ▸ List.mem_cons_self)

/-- White space after an operand is no part of it. -/
theorem trim_operand (operand : List Char) :
    trim (op.mnemonic.toList ++ ' ' :: operand) =
      if trimEnd operand = [] then op.mnemonic.toList
      else op.mnemonic.toList ++ ' ' :: trimEnd operand := by
  have hblank : trimEnd [' '] = [] := rfl
  rw [op.trim_append, ← List.singleton_append, ← List.append_assoc, Text.trimEnd_append,
    Text.trimEnd_append op.mnemonic.toList, if_pos hblank, op.trimEnd_mnemonic]
  split
  · rfl
  · rw [List.append_assoc, List.singleton_append]

end Words

/-- The name of a class as it is read back. -/
def trimmedName (name : String) : String :=
  String.ofList (trimEnd name.toList)

/-- An instruction with the name in its cast as it is read back. -/
def Instr.trimmed : Instr → Instr
  | .checkcast className => .checkcast (trimmedName className)
  | i => i

def Code.trimmed : Code → Code
  | .instr i => .instr i.trimmed
  | c => c

/-- A method that the machine can call. -/
def Method.isCallable : Method → Bool
  | .listCopy | .fptrInvoke | .arrayListInit | .arrayListAdd | .constructor _ => false
  | _ => true

/-- An instruction that can be read back: the texts and names in it have no line feed, and
    it does not belong to calls. -/
def Instr.Legible : Instr → Prop
  | .ldcText text => '\n' ∉ text.toList
  | .checkcast className => '\n' ∉ className.toList
  | .new className => className = listClass ∨ className = fptrClass
  | .invoke method => method.isCallable = true
  | .areturn | .putfield _ _ _ => False
  | _ => True

/-- An operand that is written on one line and does not end with white space. -/
structure Tidy (operand : List Char) : Prop where
  ne_nil : operand ≠ []
  oneLine : '\n' ∉ operand
  last : ∀ c, operand.getLast? = some c → isBlank c = false

theorem Tidy.of_getLast {operand : List Char} {c : Char} (hlast : operand.getLast? = some c)
    (hblank : isBlank c = false) (hline : '\n' ∉ operand) : Tidy operand := by
  refine ⟨?_, hline, ?_⟩
  · rintro rfl
    cases hlast
  · intro d hd
    rw [hlast] at hd
    obtain rfl := Option.some.inj hd
    exact hblank

theorem Tidy.append {rest : List Char} (h : Tidy rest) {first : List Char}
    (hfirst : '\n' ∉ first) : Tidy (first ++ rest) := by
  refine ⟨by simp [h.ne_nil], by simp [hfirst, h.oneLine], ?_⟩
  intro c hc
  rw [List.getLast?_append, Option.or_eq_some_iff] at hc
  rcases hc with hc | ⟨hnone, -⟩
  · exact h.last c hc
  · exact absurd (List.getLast?_eq_none_iff.mp hnone) h.ne_nil

theorem isBlank_of_isDigit {c : Char} (h : c.isDigit = true) : isBlank c = false := by
  have hn : 48 ≤ c.toNat ∧ c.toNat ≤ 57 := by
    simpa [Char.isDigit, UInt32.le_iff_toNat_le] using h
  simp only [isBlank]
  grind

theorem tidy_toString (n : Nat) : Tidy (toString n).toList := by
  refine ⟨toString_nat_ne_nil n, ?_, ?_⟩
  · intro h
    cases isDigit_of_mem_toString h
  · intro c hc
    exact isBlank_of_isDigit (isDigit_of_mem_toString (List.mem_of_getLast? hc))

theorem Label.tidy_text (l : Label) : Tidy l.text.toList := by
  rw [Label.text, String.toList_append]
  exact (tidy_toString _).append (by decide)

theorem tidy_toString_int (k : Int) : Tidy (toString k).toList := by
  rcases toList_toString_int k with ⟨n, hlist, -⟩ | ⟨n, hlist, -⟩
  · rw [hlist]
    exact tidy_toString n
  · rw [hlist, ← List.singleton_append]
    exact (tidy_toString n).append (by decide)

/-- Code that is written as one line, which is read as `c'`. -/
def Code.ReadAs (c c' : Code) : Prop :=
  ∃ line, c.emission.lines = [line] ∧ line.head? ≠ some '.' ∧ readLine line = some [c']

section Instructions

variable {i i' : Instr} {operand : String} {read : OperandReader}

theorem Opcode.mnemonic_head? (op : Opcode) (rest : List Char) :
    (op.mnemonic.toList ++ rest).head? ≠ some '.' := by
  obtain ⟨c, _, hword, hdot, -⟩ := op.mnemonic_word
  rw [hword]
  exact fun h => hdot (Option.some.inj h)

theorem Opcode.lineFeed_not_mem (op : Opcode) : '\n' ∉ op.mnemonic.toList := by
  intro h
  cases ne_blank_of_mem h

theorem Opcode.mnemonic_ne_nil (op : Opcode) (rest : List Char) :
    op.mnemonic.toList ++ rest ≠ [] := by
  obtain ⟨c, _, hword, -⟩ := op.mnemonic_word
  rw [hword]
  exact List.cons_ne_nil _ _

/-- An instruction without operand. -/
theorem Instr.readAs_word (hi : i.operand? = none)
    (hop : operations.lookup i.opcode.mnemonic = some (plain i)) :
    (Code.instr i).ReadAs (.instr i) := by
  refine ⟨i.opcode.mnemonic.toList, ?_, ?_, readLine_word hop⟩
  · have hne := i.opcode.mnemonic_ne_nil []
    have htrim := i.opcode.trim_append []
    rw [List.append_nil] at hne htrim
    simp only [Code.emission, hi, Emission.lines, Emission.texts, List.flatMap_cons,
      List.flatMap_nil, Text.lines_eq_singleton i.opcode.lineFeed_not_mem hne, List.map_cons,
      List.map_nil, List.append_nil, htrim, i.opcode.trimEnd_mnemonic]
  · have hhead := i.opcode.mnemonic_head? []
    rwa [List.append_nil] at hhead

theorem Instr.lines_operand (hi : i.operand? = some operand) (hlf : '\n' ∉ operand.toList) :
    (Code.instr i).emission.lines =
      [trim (i.opcode.mnemonic.toList ++ ' ' :: operand.toList)] := by
  have htext : (i.opcode.mnemonic ++ " " ++ operand).toList =
      i.opcode.mnemonic.toList ++ ' ' :: operand.toList := by
    rw [String.toList_append, String.toList_append, List.append_assoc]
    rfl
  have hline : '\n' ∉ i.opcode.mnemonic.toList ++ ' ' :: operand.toList := by
    simp [i.opcode.lineFeed_not_mem, hlf]
  simp only [Code.emission, hi, Emission.lines, Emission.texts, List.flatMap_cons,
    List.flatMap_nil, htext, Text.lines_eq_singleton hline (i.opcode.mnemonic_ne_nil _),
    List.map_cons, List.map_nil, List.append_nil]

/-- An instruction with an operand that stays as it is. -/
theorem Instr.readAs_operand (hi : i.operand? = some operand) (htidy : Tidy operand.toList)
    (hop : operations.lookup i.opcode.mnemonic = some read)
    (hread : read operand.toList = some i') : (Code.instr i).ReadAs (.instr i') := by
  refine ⟨_, lines_operand hi htidy.oneLine, ?_, ?_⟩
  · rw [trim_operand, Text.trimEnd_eq htidy.last, if_neg htidy.ne_nil]
    exact i.opcode.mnemonic_head? _
  · rw [trim_operand, Text.trimEnd_eq htidy.last, if_neg htidy.ne_nil, readLine_operand hop, hread]
    rfl

/-- An instruction with the name of a class. -/
theorem Instr.readAs_name {className : String} (hlf : '\n' ∉ className.toList) :
    (Code.instr (.checkcast className)).ReadAs (.instr (.checkcast (trimmedName className))) := by
  have hop : operations.lookup Opcode.checkcast.mnemonic = some (name .checkcast) := rfl
  refine ⟨_, lines_operand rfl hlf, ?_, ?_⟩
  · rw [trim_operand]
    split
    · have hhead := Opcode.checkcast.mnemonic_head? []
      rwa [List.append_nil] at hhead
    · exact Opcode.checkcast.mnemonic_head? _
  · rw [trim_operand]
    split
    · next hnil =>
        rw [trimmedName, hnil]
        exact readLine_word hop
    · exact readLine_operand hop _

/-- A legible instruction is read back, with the name of a class as it stands in the line. -/
theorem Instr.Legible.readAs : ∀ {i : Instr}, i.Legible →
    (Code.instr i).ReadAs (.instr (i.trimmed))
  | .nop, _ | .aconstNull, _ | .iconst0, _ | .iconst1, _ | .pop, _ | .dup, _ | .iadd, _
  | .isub, _ | .imul, _ | .idiv, _ | .ineg, _ | .ixor, _ | .ret, _ => readAs_word rfl rfl
  | .ldcInt n, _ => readAs_operand rfl (tidy_toString_int n.toInt) rfl (readConstant_int n)
  | .ldcText text, h => by
      refine readAs_operand rfl ?_ rfl (readConstant_quoted text)
      rw [String.toList_append, String.toList_append]
      refine Tidy.append (.of_getLast rfl rfl (by decide)) ?_
      have htext : '\n' ∉ text.toList := h
      simpa using htext
  | .aload k, _ => readAs_operand rfl (tidy_toString k) rfl (slot_toString _ k)
  | .astore k, _ => readAs_operand rfl (tidy_toString k) rfl (slot_toString _ k)
  | .iload k, _ => readAs_operand rfl (tidy_toString k) rfl (slot_toString _ k)
  | .istore k, _ => readAs_operand rfl (tidy_toString k) rfl (slot_toString _ k)
  | .decrement k, _ => by
      refine readAs_operand rfl ?_ rfl (readDecrement_toString k)
      rw [String.toList_append]
      exact Tidy.append (.of_getLast rfl rfl (by decide)) (tidy_toString k).oneLine
  | .branch condition l, _ => by
      cases condition <;> exact readAs_operand rfl l.tidy_text rfl (target_text _ l)
  | .goto l, _ => readAs_operand rfl l.tidy_text rfl (target_text _ l)
  | .getSystemOut, _ => readAs_operand rfl (.of_getLast rfl rfl (by decide)) rfl rfl
  | .invoke method, h => by
      cases method with
      | listCopy | fptrInvoke | arrayListInit | arrayListAdd | constructor => cases h
      | _ => exact readAs_operand rfl (.of_getLast rfl rfl (by decide)) rfl rfl
  | .new className, h => by
      rcases h with rfl | rfl
      · exact readAs_operand rfl (.of_getLast rfl rfl (by decide)) rfl rfl
      · exact readAs_operand rfl (.of_getLast rfl rfl (by decide)) rfl rfl
  | .checkcast className, h => readAs_name h

end Instructions

-- ============================================================================
-- Bodies are read back
-- ============================================================================

/-- Code that can be read back. -/
def Code.Legible : Code → Prop
  | .instr i => i.Legible
  | .label _ => True
  | _ => False

theorem Code.readAs_label (l : Label) : (Code.label l).ReadAs (.label l) := by
  have hlist : (l.text ++ ":").toList = l.text.toList ++ [':'] := String.toList_append
  have htidy : Tidy (l.text.toList ++ [':']) := by
    refine Tidy.append (.of_getLast rfl rfl (by decide)) l.tidy_text.oneLine
  have hhead : (l.text.toList ++ [':']).head? = some 'L' := by
    rw [l.toList_text]
    rfl
  have htrim : Trimmed (l.text.toList ++ [':']) := by
    refine ⟨fun c hc => ?_, htidy.last⟩
    rw [hhead] at hc
    exact Option.some.inj hc ▸ rfl
  refine ⟨l.text.toList ++ [':'], ?_, ?_, ?_⟩
  · simp only [emission, Emission.lines, Emission.texts, List.flatMap_cons, List.flatMap_nil,
      hlist, Text.lines_eq_singleton htidy.oneLine htidy.ne_nil, List.map_cons, List.map_nil,
      List.append_nil, htrim.trim_eq]
  · rw [hhead]
    decide
  · simp only [readLine, hhead, List.getLast?_concat, if_pos, List.dropLast_concat,
      readLabel_text, Option.map_some]

theorem Code.Legible.readAs {c : Code} (h : c.Legible) : c.ReadAs c.trimmed := by
  cases c with
  | instr i => exact Instr.Legible.readAs h
  | label l => exact Code.readAs_label l
  | _ => cases h

theorem readBody_cons {line : List Char} {code : List Code} (hne : line ≠ ".end method".toList)
    (h : readLine line = some code) (rest : List (List Char)) :
    readBody (line :: rest) = (readBody rest).map (code ++ ·) := by
  rw [readBody, if_neg hne, h]
  cases readBody rest <;> rfl

theorem ne_endMethod {line : List Char} (h : line.head? ≠ some '.') :
    line ≠ ".end method".toList := by
  rintro rfl
  exact h rfl

theorem head?_of_mem_comment {text : String} {line : List Char}
    (h : line ∈ (Emission.comment text).lines) : line.head? = some ';' := by
  simp only [Emission.lines, Emission.texts, List.mem_flatMap, List.mem_map] at h
  obtain ⟨_, ⟨raw, hraw, rfl⟩, _, hline, rfl⟩ := h
  have hlist : ("; " ++ String.ofList raw).toList = [';'] ++ ' ' :: raw := by
    simp [String.toList_append]
  have hlf : '\n' ∉ [';'] ++ ' ' :: raw := by
    simpa using Text.lineFeed_not_mem hraw
  rw [hlist, Text.lines_eq_singleton hlf (by simp), List.mem_singleton] at hline
  rw [hline, trim, Text.trimStart_eq (by simp [isBlank]), Text.trimEnd_append]
  split <;> rfl

/-- A comment is no code. -/
theorem readBody_comment (text : String) (rest : List (List Char)) :
    readBody ((Emission.comment text).lines ++ rest) = readBody rest := by
  have hskip : ∀ ls : List (List Char), (∀ line ∈ ls, line.head? = some ';') →
      readBody (ls ++ rest) = readBody rest := by
    intro ls hls
    induction ls with
    | nil => rfl
    | cons line more ih =>
        obtain ⟨hline, hmore⟩ := List.forall_mem_cons.mp hls
        have hread : readLine line = some [] := by simp only [readLine, hline]
        have hne : line ≠ ".end method".toList := ne_endMethod (by rw [hline]; decide)
        rw [List.cons_append, readBody_cons hne hread, ih hmore]
        cases readBody rest <;> rfl
  exact hskip _ fun _ => head?_of_mem_comment

/-- What is written inside of a method is read back as its code. -/
theorem readBody_actions {acts : List Action} (hbody : ∀ action ∈ acts, action.InBody)
    (hlegible : ∀ c ∈ codesOf acts, c.Legible) (rest : List (List Char)) :
    readBody (acts.flatMap Action.lines ++ rest) =
      (readBody rest).map ((codesOf acts).map Code.trimmed ++ ·) := by
  induction acts with
  | nil =>
      cases h : readBody rest <;> simp [h]
  | cons action acts ih =>
      obtain ⟨haction, hacts⟩ := List.forall_mem_cons.mp hbody
      rw [List.flatMap_cons, List.append_assoc]
      rcases haction with ⟨c, rfl⟩ | ⟨text, rfl⟩
      · rw [codesOf_cons_code] at hlegible ⊢
        obtain ⟨hc, hrest⟩ := List.forall_mem_cons.mp hlegible
        obtain ⟨line, hline, hhead, hread⟩ := hc.readAs
        rw [Action.lines, hline, List.singleton_append,
          readBody_cons (ne_endMethod hhead) hread, ih hacts hrest, Option.map_map]
        rfl
      · rw [Action.lines, readBody_comment]
        exact ih hacts hlegible

-- ============================================================================
-- The constructor of the entry class
-- ============================================================================

/-- The lines of the entry unit up to the header of the constructor. -/
def entryHead : List (List Char) :=
  [".class public Main", ".super java/lang/Object", "",
    ".method public static main([Ljava/lang/String;)V", ".limit stack 128",
    ".limit locals 128", "new Main", "dup", "invokespecial Main/<init>()V", "return",
    ".end method", ""].map String.toList

/-- What is written before the constructor, and its header. -/
def entryHeadActs : List Action :=
  [.code (.classHeader entryClass),
    .code (.methodHeader "public static main([Ljava/lang/String;)V"), .code .entryBody,
    .code (.methodHeader "public <init>()V")]

theorem lines_entryHeadActs :
    entryHeadActs.flatMap Action.lines =
      entryHead ++ [".method public <init>()V".toList, ".limit stack 128".toList,
        ".limit locals 128".toList] := by
  decide +kernel

theorem Reports.lines {acts : List Action} (h : Reports acts) : acts.flatMap Action.lines = [] := by
  rw [List.flatMap_eq_nil_iff]
  intro action haction
  obtain ⟨line, rfl⟩ := h action haction
  rfl

namespace EntryActions

variable {S : Setting} {body : List Stmt} {functions : List FunctionDef} {f f' : Frame}
  {acts : List Action} (e : EntryActions S body functions f acts f')

/-- The fragments of the constructor. -/
def constructorParts : List Fragment :=
  superParts ++ e.parts ++ [.instr .ret]

/-- What is written inside of the constructor. -/
def constructorActs : List Action :=
  (Fragment.codeAll superParts).map Action.code ++ (e.bodyActs ++ [.instr .ret])

theorem constructor_writes :
    Writes e.constructorActs (Fragment.codeAll e.constructorParts) := by
  have h := (Writes.ofCode (Fragment.codeAll superParts)).append
    (e.body_writes.append (Writes.ofInstrs [.ret]))
  rw [constructorParts, Fragment.codeAll_append, Fragment.codeAll_append, List.append_assoc]
  exact h

theorem lines_inside : e.inside.flatMap Action.lines =
    entryHead ++ ".method public <init>()V".toList :: ".limit stack 128".toList ::
      ".limit locals 128".toList :: (e.constructorActs.flatMap Action.lines ++
        ".end method".toList :: e.functionActs.flatMap Action.lines) := by
  have hinside : e.inside = e.reports ++ (entryHeadActs ++
      (e.constructorActs ++ .code .endMethod :: e.functionActs)) := by
    rw [e.inside_eq, constructorActs]
    simp [entryHeadActs]
  have hend : (Action.code .endMethod).lines = [".end method".toList] := by decide +kernel
  rw [hinside, List.flatMap_append, e.reports_reports.lines, List.flatMap_append,
    lines_entryHeadActs, List.flatMap_append, List.flatMap_cons, hend]
  simp only [List.nil_append, List.append_assoc, List.cons_append]

/-- The constructor of the entry class is read back from the text of its unit. -/
theorem readConstructor_eq (hlegible : ∀ c ∈ Fragment.codeAll e.constructorParts, c.Legible) :
    readConstructor (writtenBy e.inside) =
      some ((Fragment.codeAll e.constructorParts).map Code.trimmed) := by
  have hwrites := e.constructor_writes
  have hread : ∀ c ∈ codesOf e.constructorActs, c.Legible := hwrites.code ▸ hlegible
  have hlimit : ∀ rest, readBody (".limit stack 128".toList :: ".limit locals 128".toList :: rest) =
      readBody rest := by
    intro rest
    rw [readBody_cons (by decide) rfl, readBody_cons (by decide) rfl]
    cases readBody rest <;> rfl
  rw [readConstructor, lines_writtenBy, e.lines_inside, List.dropWhile_append_of_pos (by decide),
    List.dropWhile_cons_of_neg (by decide)]
  change readBody _ = _
  rw [hlimit, readBody_actions hwrites.inBody hread, readBody, if_pos rfl, hwrites.code,
    Option.map_some, List.append_nil]

end EntryActions

end JasminGen
