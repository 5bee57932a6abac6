/-
  JasminGen.Proofs.Requests

  Reading requests back from the text of a unit. Each of them is one line, and its first
  character says what it is: a directive, a comment, a label or an instruction. An
  instruction has the name of its operation up to the first blank and its operand after
  it, so whatever stands in an operand, the line is taken for nothing else.

  Main definitions: `Emission.Readable`, `readRequest`, `readUnit`. Main results:
  `Emission.Readable.read`, `readUnit_written`, `requests_of_text`.
-/

import JasminGen.Proofs.Reader

namespace JasminGen

open Text (isBlank trim)

-- ============================================================================
-- Requests of one line
-- ============================================================================

namespace Emission

/-- A request that is one line, where no white space is lost. A directive starts with a dot,
    so only its end can be white space. -/
def Readable : Emission → Prop
  | .text directive => directive.toList.head? = some '.' ∧ Settled directive.toList
  | .instruction _ | .label _ => True
  | .instructionWith _ operand => operand ≠ "" ∧ Settled operand.toList
  | .comment t => t ≠ "" ∧ Settled t.toList

/-- The line of a request. -/
def line : Emission → List Char
  | .text directive => directive.toList
  | .instruction op => op.mnemonic.toList
  | .instructionWith op operand => op.mnemonic.toList ++ ' ' :: operand.toList
  | .label l => l.text.toList ++ [':']
  | .comment t => ';' :: ' ' :: t.toList

end Emission

theorem Settled.tidy {text : String} (h : Settled text.toList) (hne : text ≠ "") :
    Tidy text.toList :=
  ⟨fun h => hne (String.toList_eq_nil_iff.mp h), h.oneLine, h.trimmed.last⟩

theorem Tidy.settled {line : List Char} (h : Tidy line)
    (hhead : ∀ c, line.head? = some c → isBlank c = false) : Settled line :=
  ⟨⟨hhead, h.last⟩, h.oneLine⟩

theorem Opcode.tidy_mnemonic (op : Opcode) : Tidy op.mnemonic.toList := by
  refine ⟨?_, op.lineFeed_not_mem, fun c hc => ne_blank_of_mem (List.mem_of_getLast? hc)⟩
  simpa using op.mnemonic_ne_nil []

theorem Opcode.head?_mnemonic_append {op : Opcode} {rest : List Char} {c : Char}
    (h : (op.mnemonic.toList ++ rest).head? = some c) : c ∈ op.mnemonic.toList := by
  obtain ⟨first, more, hword, -⟩ := op.mnemonic_word
  rw [hword] at h ⊢
  exact Option.some.inj h ▸ List.mem_cons_self

namespace Emission.Readable

variable {e : Emission}

theorem texts_eq (h : e.Readable) : e.texts = [String.ofList e.line] := by
  cases e with
  | text directive => rw [texts, line, String.ofList_toList]
  | instruction op => rw [texts, line, String.ofList_toList]
  | instructionWith op operand =>
      rw [texts, line, String.ofList_append, String.ofList_toList, String.append_assoc]
      simp
  | label l =>
      rw [texts, line, String.ofList_append, String.ofList_toList]
  | comment t =>
      have htidy := h.2.tidy h.1
      have hline : ';' :: ' ' :: t.toList = "; ".toList ++ t.toList := rfl
      rw [texts, Text.lines_eq_singleton htidy.oneLine htidy.ne_nil, List.map_singleton, line,
        hline, String.ofList_append, String.ofList_toList, String.ofList_toList]

theorem tidy_line (h : e.Readable) : Tidy e.line := by
  cases e with
  | text directive =>
      refine h.2.tidy ?_
      rintro rfl
      cases h.1
  | instruction op => exact op.tidy_mnemonic
  | instructionWith op operand =>
      have hoperand : Tidy (' ' :: operand.toList) := (h.2.tidy h.1).append (by decide : '\n' ∉ [' '])
      exact hoperand.append op.lineFeed_not_mem
  | label l => exact Tidy.append (.of_getLast rfl rfl (by decide)) l.tidy_text.oneLine
  | comment t => exact (h.2.tidy h.1).append (by decide : '\n' ∉ [';', ' '])

theorem settled_line (h : e.Readable) : Settled e.line := by
  apply h.tidy_line.settled
  intro c hc
  cases e with
  | text directive => exact h.2.trimmed.head c hc
  | instruction op => exact Opcode.ne_blank_of_mem (List.mem_of_head? hc)
  | instructionWith op operand => exact Opcode.ne_blank_of_mem (Opcode.head?_mnemonic_append hc)
  | label l =>
      rw [line, l.toList_text] at hc
      exact Option.some.inj hc ▸ rfl
  | comment t => exact Option.some.inj hc ▸ rfl

/-- Such a request is written as its line: nothing is split, and nothing trimmed off. -/
theorem lines_eq (h : e.Readable) : e.lines = [e.line] := by
  have hsettled := h.settled_line
  rw [lines, h.texts_eq, List.flatMap_singleton, String.toList_ofList,
    Text.lines_eq_singleton hsettled.oneLine h.tidy_line.ne_nil, List.map_singleton,
    hsettled.trimmed.trim_eq]

end Emission.Readable

-- ============================================================================
-- Reading requests
-- ============================================================================

/-- The operations. -/
def Opcode.all : List Opcode :=
  [.nop, .aconstNull, .iconst0, .iconst1, .ldc, .aload, .astore, .iload, .istore, .iinc, .pop,
    .dup, .iadd, .isub, .imul, .idiv, .ineg, .ixor, .ifeq, .ifne, .ifgt, .ifIcmpne, .ifIcmpge,
    .ifIcmple, .ifAcmpne, .goto, .ret, .areturn, .getstatic, .putfield, .invokevirtual,
    .invokespecial, .invokestatic, .new, .checkcast]

/-- The operation of a name. -/
def Opcode.named? (name : List Char) : Option Opcode :=
  Opcode.all.find? fun op => op.mnemonic.toList == name

theorem Opcode.named?_mnemonic (op : Opcode) : named? op.mnemonic.toList = some op := by
  cases op <;> rfl

/-- Read the request of an instruction. -/
def readOperation (line : List Char) : Option Emission :=
  (Opcode.named? (line.takeWhile (· != ' '))).map fun op =>
    match line.dropWhile (· != ' ') with
    | [] => .instruction op
    | _ :: operand => .instructionWith op (String.ofList operand)

/-- Read a request from its line. -/
def readRequest (line : List Char) : Option Emission :=
  match line.head? with
  | none => none
  | some '.' => some (.text (String.ofList line))
  | some ';' => some (.comment (String.ofList (line.drop 2)))
  | some 'L' => (readLabel line.dropLast).map .label
  | some _ => readOperation line

/-- Read the requests of a unit. -/
def readUnit (text : String) : Option (List Emission) :=
  ((Text.lines text.toList).map trim).mapM readRequest

theorem readRequest_mnemonic (op : Opcode) (rest : List Char) :
    readRequest (op.mnemonic.toList ++ rest) = readOperation (op.mnemonic.toList ++ rest) := by
  obtain ⟨c, more, hword, hdot, hsemicolon, hlabel, -⟩ := op.mnemonic_word
  rw [readRequest, hword, List.cons_append, List.head?_cons]
  split
  · next h => cases h
  · next h => exact absurd (Option.some.inj h) hdot
  · next h => exact absurd (Option.some.inj h) hsemicolon
  · next h => exact absurd (Option.some.inj h) hlabel
  · rfl

theorem readOperation_word (op : Opcode) :
    readOperation op.mnemonic.toList = some (.instruction op) := by
  rw [← List.append_nil op.mnemonic.toList, readOperation,
    List.takeWhile_append_of_pos fun c => Opcode.ne_space_of_mem,
    List.dropWhile_append_of_pos fun c => Opcode.ne_space_of_mem, List.takeWhile_nil,
    List.append_nil, op.named?_mnemonic]
  rfl

/-- The first blank of a line ends the name of the operation. -/
theorem readOperation_operand (op : Opcode) (operand : List Char) :
    readOperation (op.mnemonic.toList ++ ' ' :: operand) =
      some (.instructionWith op (String.ofList operand)) := by
  rw [readOperation, List.takeWhile_append_of_pos fun c => Opcode.ne_space_of_mem,
    List.dropWhile_append_of_pos fun c => Opcode.ne_space_of_mem,
    List.takeWhile_cons_of_neg (by simp), List.dropWhile_cons_of_neg (by simp), List.append_nil,
    op.named?_mnemonic]
  rfl

theorem Emission.Readable.read {e : Emission} (h : e.Readable) : readRequest e.line = some e := by
  cases e with
  | text directive =>
      rw [readRequest, line, h.1, String.ofList_toList]
      rfl
  | instruction op =>
      have hword := readRequest_mnemonic op []
      rw [List.append_nil, readOperation_word] at hword
      exact hword
  | instructionWith op operand =>
      rw [line, readRequest_mnemonic, readOperation_operand, String.ofList_toList]
  | label l =>
      have hhead : (l.text.toList ++ [':']).head? = some 'L' := by
        rw [l.toList_text]
        rfl
      rw [readRequest, line, hhead, List.dropLast_concat, readLabel_text]
      rfl
  | comment t =>
      rw [line]
      exact congrArg (fun t => some (comment t)) String.ofList_toList

theorem mapM_readRequest {es : List Emission} (h : ∀ e ∈ es, e.Readable) :
    (es.flatMap Emission.lines).mapM readRequest = some es := by
  induction es with
  | nil => rfl
  | cons e es ih =>
      obtain ⟨he, hes⟩ := List.forall_mem_cons.mp h
      rw [List.flatMap_cons, he.lines_eq, List.singleton_append, List.mapM_cons, he.read, ih hes]
      rfl

/-- What requests write is read as these requests. -/
theorem readUnit_written {es : List Emission} (h : ∀ e ∈ es, e.Readable) :
    readUnit (String.join (es.map Emission.written)) = some es := by
  have hlines := lines_writtenBy (es.map Action.emission)
  rw [writtenBy, List.map_map, List.flatMap_map] at hlines
  rw [readUnit, ← mapM_readRequest h]
  exact congrArg (List.mapM readRequest) hlines

-- ============================================================================
-- Runs
-- ============================================================================

namespace Output

theorem forM_perform_writing (es : List Emission) (memory : Memory) (name text : String) :
    forM es perform (writing memory name text) =
      (.ok (), writing memory name (text ++ String.join (es.map Emission.written))) := by
  induction es generalizing text with
  | nil =>
      rw [List.map_nil, String.join_nil, String.append_empty]
      rfl
  | cons e es ih =>
      have he : perform e (writing memory name text) =
          (.ok (), writing memory name (text ++ e.written)) := emitTexts_writing e.texts
      rw [List.forM_cons, Attempt.bind_ok he, ih, List.map_cons, String.join_cons,
        String.append_assoc]

end Output

/-- Requests into an open unit are all performed, and the text of the unit tells which they
    were. -/
theorem requests_of_text {es es' : List Emission} (h : ∀ e ∈ es, e.Readable)
    (h' : ∀ e ∈ es', e.Readable) (memory memory' : Memory) (name name' before : String) :
    ∃ out out' : Output Memory String,
      forM es Output.perform (Output.writing memory name before) = (.ok (), out) ∧
      forM es' Output.perform (Output.writing memory' name' before) = (.ok (), out') ∧
      (out.sink.unit? name = out'.sink.unit? name' → es = es') := by
  refine ⟨_, _, Output.forM_perform_writing es memory name before,
    Output.forM_perform_writing es' memory' name' before, ?_⟩
  intro hunit
  simp only [Output.writing, Memory.unit?_set, Option.some.injEq] at hunit
  have hwritten := (String.append_right_inj _).mp hunit
  have hread := readUnit_written h
  rw [hwritten, readUnit_written h'] at hread
  exact (Option.some.inj hread).symm

/-- Requests with the marks of the others in their operands and texts. -/
def alikeRequests (last : Emission) : List Emission :=
  [.text ".limit; Label_7:", .instructionWith .new "; Label_7:", .comment "new ; Label_7:",
    .instructionWith .ldc "\"a\r .b\"", .label ⟨7⟩, last]

theorem settled_of_ends {line : List Char} {first last : Char} (hhead : line.head? = some first)
    (hlast : line.getLast? = some last) (hfirst : isBlank first = false)
    (hblank : isBlank last = false) (hlf : '\n' ∉ line) : Settled line := by
  apply (Tidy.of_getLast hlast hblank hlf).settled
  intro c hc
  rw [hhead] at hc
  exact Option.some.inj hc ▸ hfirst

theorem readable_alikeRequests {last : Emission} (h : last.Readable) :
    ∀ e ∈ alikeRequests last, e.Readable := by
  simp only [alikeRequests, List.forall_mem_cons]
  refine ⟨⟨rfl, ?_⟩, ⟨by decide, ?_⟩, ⟨by decide, ?_⟩, ⟨by decide, ?_⟩, trivial, h, by simp⟩
  all_goals exact settled_of_ends rfl rfl rfl rfl (by decide)

theorem requests_of_text_alike :
    (∀ e ∈ alikeRequests (.label ⟨7⟩), e.Readable) ∧
    (∀ e ∈ alikeRequests (.instruction .new), e.Readable) ∧
    ∃ out out' : Output Memory String,
      forM (alikeRequests (.label ⟨7⟩)) Output.perform (Output.writing .empty "Main" "") =
        (.ok (), out) ∧
      forM (alikeRequests (.instruction .new)) Output.perform
        (Output.writing .empty "Main" "") = (.ok (), out') ∧
      out.sink.unit? "Main" ≠ out'.sink.unit? "Main" := by
  have h : ∀ e ∈ alikeRequests (.label ⟨7⟩), e.Readable := readable_alikeRequests trivial
  have h' : ∀ e ∈ alikeRequests (.instruction .new), e.Readable := readable_alikeRequests trivial
  obtain ⟨out, out', hout, hout', hsame⟩ := requests_of_text h h' .empty .empty "Main" "Main" ""
  refine ⟨h, h', out, out', hout, hout', fun hunit => ?_⟩
  have hrequests := hsame hunit
  cases hrequests

end JasminGen
