import ByteMachine.Proofs.Assembly.Layout

/-!
This module contains the source text of a list of instructions, which is assembled to the bytes of
the instructions.
-/

namespace ByteMachine

def OperandKind.numbers (kind : OperandKind) (byte : UInt8) : List Nat :=
  if kind = .registerPair then [byte.toNat / 16, byte.toNat % 16] else [byte.toNat]

namespace Assembly

def Plain (c : Char) : Prop :=
  (65 ≤ c.toNat ∧ c.toNat ≤ 90) ∨ (48 ≤ c.toNat ∧ c.toNat ≤ 57)

instance : DecidablePred Plain :=
  fun c => inferInstanceAs
    (Decidable ((65 ≤ c.toNat ∧ c.toNat ≤ 90) ∨ (48 ≤ c.toNat ∧ c.toNat ≤ 57)))

theorem plain_of_mem_toDigits {n : Nat} {c : Char} (mem : c ∈ Nat.toDigits 10 n) : Plain c := by
  have digit := Number.isDigit_of_mem_toDigits mem
  simp only [Char.isDigit, Bool.and_eq_true, decide_eq_true_eq] at digit
  exact .inr digit

namespace Plain

variable {c : Char} (plain : Plain c)

include plain

theorem ne_of_not_plain {d : Char} (other : ¬Plain d) : c ≠ d := by
  rintro rfl
  contradiction

theorem not_isSeparator : isSeparator c = false := by
  have comma : c ≠ ',' := plain.ne_of_not_plain (by decide)
  have blank : Text.isBlank c = false := by
    unfold Plain at plain
    simp only [Text.isBlank, Text.blankRanges, List.any_cons, List.any_nil, Bool.or_false,
      Bool.or_eq_false_iff, Bool.and_eq_false_imp, decide_eq_true_eq, decide_eq_false_iff_not]
    omega
  rw [isSeparator, blank, decide_eq_false comma]
  rfl

theorem toUpper_eq : c.toUpper = c := by
  apply dif_neg
  rintro ⟨low, -⟩
  have low : 97 ≤ c.toNat := low
  unfold Plain at plain
  omega

end Plain

theorem mem_intercalate {sep : Char} {words : List (List Char)} {c : Char}
    (mem : c ∈ List.intercalate [sep] words) : c = sep ∨ ∃ word ∈ words, c ∈ word := by
  induction words with
  | nil => contradiction
  | cons word words ih =>
    cases words with
    | nil =>
      rw [List.intercalate_singleton] at mem
      exact .inr ⟨word, by simp, mem⟩
    | cons second words =>
      rw [List.intercalate_cons_cons, List.append_assoc, List.mem_append, List.singleton_append,
        List.mem_cons] at mem
      rcases mem with mem | rfl | mem
      . exact .inr ⟨word, by simp, mem⟩
      . exact .inl rfl
      . rcases ih mem with rfl | ⟨other, among, mem⟩
        . exact .inl rfl
        . exact .inr ⟨other, by simp [among], mem⟩

section Words

variable {words : List (List Char)} (plain : ∀ word ∈ words, ∀ c ∈ word, Plain c)

include plain

theorem ne_of_mem_intercalate {c : Char} (mem : c ∈ List.intercalate [' '] words) {d : Char}
    (other : ¬Plain d) (ne : d ≠ ' ') : c ≠ d := by
  rcases mem_intercalate mem with rfl | ⟨word, among, mem⟩
  . exact ne.symm
  . exact (plain word among c mem).ne_of_not_plain other

theorem tokens_intercalate (ne : ∀ word ∈ words, word ≠ []) :
    tokens (List.intercalate [' '] words) = words := by
  rw [tokens, Text.cut_of_forall]
  . apply Text.words_intercalate (by decide)
    . intro word among c mem
      exact (plain word among c mem).not_isSeparator
    . exact ne
  . intro c mem
    exact ne_of_mem_intercalate plain mem (by decide) (by decide)

end Words

def SourceKind.marker : SourceKind → List Char
  | .constant => ['N', 'U', 'M']
  | .register => ['R']
  | .registerMemory => ['R', 'M']
  | .memory => ['M']

def SourceKind.spell (kind : SourceKind) (n : Nat) : List Char :=
  kind.marker ++ Nat.toDigits 10 n

theorem SourceKind.plain_spell (kind : SourceKind) (n : Nat) : ∀ c ∈ kind.spell n, Plain c := by
  have marker : (kind.marker.all (Plain ·)) = true := by
    cases kind <;> decide
  intro c mem
  rw [spell, List.mem_append] at mem
  rcases mem with mem | mem
  . exact of_decide_eq_true (List.all_eq_true.1 marker c mem)
  . exact plain_of_mem_toDigits mem

theorem SourceKind.spell_ne_nil (kind : SourceKind) (n : Nat) : kind.spell n ≠ [] := by
  cases kind <;> simp [spell, marker]

namespace Operand

def number : Operand → Nat
  | .constant value => value.toNat
  | .register r => r.index
  | .registerMemory r => r.index
  | .memory address => address.toNat
  | .label _ => 0

def text (operand : Operand) : List Char :=
  operand.kind.spell operand.number

end Operand

theorem parseRegister_toDigits (token : List Char) (r : Register) :
    parseRegister token (Nat.toDigits 10 r.index) = .ok r := by
  rw [parseRegister, Number.read?_toDigits]
  exact dif_pos r.index.isLt

theorem map_toUpper_of_plain {text : List Char} (plain : ∀ c ∈ text, Plain c) :
    text.map Char.toUpper = text := by
  rw [List.map_congr_left (g := id), List.map_id]
  intro c mem
  exact (plain c mem).toUpper_eq

theorem parseOperand_of_plain {token : List Char} :
    (∀ c ∈ token, Plain c) → parseOperand token =
      match token with
      | 'N' :: 'U' :: 'M' :: digits => (parseLiteral token digits).map .constant
      | 'R' :: 'M' :: digits => (parseRegister token digits).map .registerMemory
      | 'R' :: digits => (parseRegister token digits).map .register
      | 'M' :: digits => (parseLiteral token digits).map .memory
      | _ => .error (.malformedOperand (String.ofList token)) := by
  intro plain
  unfold parseOperand
  split
  . exact absurd (plain ':' (by simp)) (by decide)
  . have upper := map_toUpper_of_plain plain
    generalize token.map Char.toUpper = letters at upper ⊢
    subst upper
    rfl

theorem parseOperand_text {operand : Operand} (written : ∀ name, operand ≠ .label name) :
    parseOperand operand.text = .ok operand := by
  have plain := operand.kind.plain_spell operand.number
  have read : ∀ (token : List Char) (value : UInt8),
      parseLiteral token (Nat.toDigits 10 value.toNat) = .ok value := by
    intro token value
    rw [parseLiteral, Number.byte?_toDigits]
  rw [Operand.text, parseOperand_of_plain plain]
  cases operand with
  | constant value =>
    simp only [Operand.kind, SourceKind.spell, SourceKind.marker, List.cons_append,
      List.nil_append, Operand.number, read]
    rfl
  | registerMemory r =>
    simp only [Operand.kind, SourceKind.spell, SourceKind.marker, List.cons_append,
      List.nil_append, Operand.number, parseRegister_toDigits]
    rfl
  | memory address =>
    simp only [Operand.kind, SourceKind.spell, SourceKind.marker, List.cons_append,
      List.nil_append, Operand.number, read]
    rfl
  | register r =>
    -- the digit behind the letter tells it from a memory cell addressed by a register
    simp only [Operand.kind, SourceKind.spell, SourceKind.marker, List.cons_append,
      List.nil_append, Operand.number]
    split
    . next same => cases same
    . next digits same =>
      have digit := Number.isDigit_of_mem_toDigits (n := r.index) (c := 'M') (by simp_all)
      contradiction
    . next digits _ same =>
      cases same
      rw [parseRegister_toDigits]
      rfl
    . next same => cases same
    . next other _ => exact absurd rfl (other _)
  | label name => exact absurd rfl (written name)

inductive Serves : List SourceKind → List OperandKind → Prop where
  | nil : Serves [] []
  | single {sources : List SourceKind} {kinds : List OperandKind} {source : SourceKind}
      {kind : OperandKind} (takes : kind.takes source) :
      Serves sources kinds → Serves (source :: sources) (kind :: kinds)
  | pair {sources : List SourceKind} {kinds : List OperandKind} :
      Serves sources kinds → Serves (.register :: .register :: sources) (.registerPair :: kinds)

theorem serves_sources (op : Opcode) : Serves op.sources op.operands := by
  cases op
  case nop | ret | clearCarry | setCarry => exact .nil
  case movRegReg | add | sub | mul | div | mod | and | or | xor => exact .pair .nil
  case inc | dec | not | shl | shr | print | printChar | jmp | jmpCarry | jmpNoCarry | call |
      selectBank | selectPalette =>
    exact .single rfl .nil
  all_goals exact .single rfl (.single rfl .nil)

theorem exists_operand {kind : OperandKind} {source : SourceKind} (takes : kind.takes source)
    {byte : UInt8} (accepts : kind.accepts byte) :
    ∃ operand : Operand, operand.kind = source ∧ operand.cell = .byte byte ∧
      kind.numbers byte = [operand.number] ∧ ∀ name, operand ≠ .label name := by
  cases kind <;> cases source <;> try contradiction
  case constant.constant => exact ⟨.constant byte, rfl, rfl, rfl, by simp⟩
  case memoryAddress.memory => exact ⟨.memory byte, rfl, rfl, rfl, by simp⟩
  case register.register =>
    obtain ⟨r, rfl⟩ := OperandKind.accepts_register_iff.1 accepts
    exact ⟨.register r, rfl, rfl, congrArg ([·]) r.toNat_toByte, by simp⟩
  case register.registerMemory =>
    obtain ⟨r, rfl⟩ := OperandKind.accepts_register_iff.1 accepts
    exact ⟨.registerMemory r, rfl, rfl, congrArg ([·]) r.toNat_toByte, by simp⟩

theorem Serves.exists_operands {sources : List SourceKind} {kinds : List OperandKind}
    (serves : Serves sources kinds) {bytes : List UInt8} (legal : OperandKind.Accept kinds bytes) :
    ∃ operands : List Operand, operands.map Operand.kind = sources ∧
      Fill kinds operands (bytes.map .byte) ∧
      List.zipWith SourceKind.spell sources
        (List.zipWith OperandKind.numbers kinds bytes).flatten = operands.map Operand.text ∧
      ∀ operand ∈ operands, ∀ name, operand ≠ .label name := by
  -- one operand is written for a byte, but two for the byte of a register pair
  induction serves generalizing bytes with
  | nil =>
    cases legal
    exact ⟨[], rfl, .nil, rfl, by simp⟩
  | @single sources kinds source kind takes _ ih =>
    cases legal with
    | @cons _ byte _ bytes accepts legal =>
      obtain ⟨operands, kinds, fill, text, written⟩ := ih legal
      obtain ⟨operand, rfl, cell, numbers, first⟩ := exists_operand takes accepts
      refine ⟨operand :: operands, ?_, ?_, ?_, ?_⟩
      . rw [List.map_cons, kinds]
      . rw [List.map_cons, ← cell]
        exact .single operand takes fill
      . rw [List.zipWith_cons_cons, List.flatten_cons, numbers, List.singleton_append,
          List.zipWith_cons_cons, text]
        rfl
      . rw [List.forall_mem_cons]
        exact ⟨first, written⟩
  | @pair sources kinds _ ih =>
    cases legal with
    | @cons _ byte _ bytes accepts legal =>
      obtain ⟨operands, kinds, fill, text, written⟩ := ih legal
      obtain ⟨p, rfl⟩ := OperandKind.accepts_registerPair_iff.1 accepts
      refine ⟨.register p.source :: .register p.destination :: operands, ?_, ?_, ?_, ?_⟩
      . rw [List.map_cons, List.map_cons, kinds]
        rfl
      . exact .pair p fill
      . have numbers : OperandKind.registerPair.numbers p.toByte =
            [p.source.index.val, p.destination.index.val] := by
          rw [OperandKind.numbers, if_pos rfl, p.toNat_toByte.1, p.toNat_toByte.2]
        rw [List.zipWith_cons_cons, List.flatten_cons, numbers, List.cons_append,
          List.singleton_append, List.zipWith_cons_cons, List.zipWith_cons_cons, text]
        rfl
      . simp only [List.forall_mem_cons]
        exact ⟨by simp, by simp, written⟩

structure Code where
  op : Opcode
  operands : List UInt8
  legal : OperandKind.Accept op.operands operands

namespace Code

def bytes (code : Code) : List UInt8 :=
  code.op.byte :: code.operands

def words (code : Code) : List (List Char) :=
  code.op.mnemonic.toList ::
    List.zipWith SourceKind.spell code.op.sources
      (List.zipWith OperandKind.numbers code.op.operands code.operands).flatten

def line (code : Code) : List Char :=
  List.intercalate [' '] code.words

theorem plain_mnemonic (op : Opcode) : ∀ c ∈ op.mnemonic.toList, Plain c := by
  have all : (op.mnemonic.toList.all (Plain ·)) = true := by
    cases op <;> decide
  intro c mem
  exact of_decide_eq_true (List.all_eq_true.1 all c mem)

theorem mnemonic_ne_nil (op : Opcode) : op.mnemonic.toList ≠ [] := by
  cases op <;> decide

theorem plain_words (code : Code) : ∀ word ∈ code.words, ∀ c ∈ word, Plain c := by
  obtain ⟨operands, -, -, text, -⟩ := (serves_sources code.op).exists_operands code.legal
  rw [words, text, List.forall_mem_cons]
  refine ⟨plain_mnemonic code.op, ?_⟩
  intro word mem
  obtain ⟨operand, -, rfl⟩ := List.mem_map.1 mem
  exact operand.kind.plain_spell operand.number

theorem words_ne_nil (code : Code) : ∀ word ∈ code.words, word ≠ [] := by
  obtain ⟨operands, -, -, text, -⟩ := (serves_sources code.op).exists_operands code.legal
  rw [words, text, List.forall_mem_cons]
  refine ⟨mnemonic_ne_nil code.op, ?_⟩
  intro word mem
  obtain ⟨operand, -, rfl⟩ := List.mem_map.1 mem
  exact operand.kind.spell_ne_nil operand.number

end Code

theorem mapM_parseOperand {operands : List Operand}
    (written : ∀ operand ∈ operands, ∀ name, operand ≠ .label name) :
    (operands.map Operand.text).mapM parseOperand = .ok operands := by
  induction operands with
  | nil => rfl
  | cons operand operands ih =>
    rw [List.forall_mem_cons] at written
    rw [List.map_cons, List.mapM_cons, parseOperand_text written.1, ih written.2]
    rfl

theorem parseTokens_of_head {mnemonic : List Char} (first : mnemonic.head? ≠ some ':')
    {words : List (List Char)} {operands : List Operand}
    (parses : words.mapM parseOperand = .ok operands) :
    parseTokens (mnemonic :: words) =
      .ok (.instruction (String.ofList (mnemonic.map Char.toUpper)) operands) := by
  unfold parseTokens
  split
  . contradiction
  . next same =>
    cases same
    exact absurd rfl first
  . next same =>
    cases same
    exact absurd rfl first
  . next same =>
    cases same
    rw [parses]
    rfl

theorem parseTokens_of_plain {mnemonic : List Char} (plain : ∀ c ∈ mnemonic, Plain c)
    {words : List (List Char)} {operands : List Operand}
    (parses : words.mapM parseOperand = .ok operands) :
    parseTokens (mnemonic :: words) = .ok (.instruction (String.ofList mnemonic) operands) := by
  have first : mnemonic.head? ≠ some ':' := by
    intro head
    exact absurd (plain ':' (List.mem_of_head? head)) (by decide)
  rw [parseTokens_of_head first parses, map_toUpper_of_plain plain]

theorem ofCells_bytes (bytes : List UInt8) :
    Encoding.ofCells (bytes.map .byte) = ⟨bytes, []⟩ := by
  have silent : ∀ position, references position (bytes.map .byte) = [] := by
    induction bytes with
    | nil => exact fun _ => rfl
    | cons byte bytes ih => exact fun position => ih (position + 1)
  have same : (bytes.map .byte).map Cell.unlinked = bytes := by
    rw [List.map_map]
    exact List.map_id bytes
  rw [Encoding.ofCells, silent, same]

namespace Code

theorem exists_instruction (code : Code) :
    ∃ operands, parseLine code.line = .ok (.instruction code.op.mnemonic operands) ∧
      encode .standard code.op.mnemonic operands = .ok ⟨code.bytes, []⟩ := by
  obtain ⟨operands, kinds, fill, text, written⟩ :=
    (serves_sources code.op).exists_operands code.legal
  refine ⟨operands, ?_, ?_⟩
  . have read : parseTokens code.words = .ok (.instruction code.op.mnemonic operands) := by
      rw [words, text, parseTokens_of_plain (plain_mnemonic code.op) (mapM_parseOperand written),
        String.ofList_toList]
    rw [parseLine, line, tokens_intercalate code.plain_words code.words_ne_nil, read]
  . have selected : Opcode.select? code.op.mnemonic (operands.map Operand.kind) = some code.op := by
      rw [kinds, Opcode.select?_mnemonic_sources]
    rw [encode_eq_ok_iff]
    refine ⟨code.op, code.operands.map .byte, ⟨selected, code.op.instruction,
      InstructionSet.lookup_standard_byte code.op, fill⟩, ?_⟩
    exact (ofCells_bytes code.bytes).symm

theorem unbroken_line (code : Code) : ∀ c ∈ code.line, c ≠ '\r' ∧ c ≠ '\n' := by
  intro c mem
  exact ⟨ne_of_mem_intercalate code.plain_words mem (by decide) (by decide),
    ne_of_mem_intercalate code.plain_words mem (by decide) (by decide)⟩

end Code

def source (codes : List Code) : String :=
  String.ofList ((codes.map Code.line).flatMap (· ++ ['\n']))

namespace Program

structure Holds (p : Program) (bytes : List UInt8) : Prop where
  fixups_eq : p.fixups = []
  bytes_eq : p.bytes = bytes
  size_eq : p.size = bytes.length

theorem Holds.addLine {p : Program} {bytes : List UInt8} (holds : p.Holds bytes) (code : Code)
    (line : Nat) (fits : (bytes ++ code.bytes).length ≤ 256) :
    ∃ q, p.addLine .standard line code.line = .ok q ∧ q.Holds (bytes ++ code.bytes) := by
  obtain ⟨operands, parses, encoded⟩ := code.exists_instruction
  rw [List.length_append] at fits
  have room : p.size + code.bytes.length ≤ 256 := by
    rw [holds.size_eq]
    exact fits
  have added : p.addLine .standard line code.line = p.append line ⟨code.bytes, []⟩ := by
    rw [Program.addLine, parses]
    show (encode .standard code.op.mnemonic operands >>= p.append line) = _
    rw [encoded]
    rfl
  refine ⟨_, added.trans (append_eq_ok_iff.2 ⟨room, rfl⟩), ?_, ?_, ?_⟩
  . rw [holds.fixups_eq]
    rfl
  . rw [← holds.bytes_eq]
    simp [Program.bytes]
  . rw [List.length_append, ← holds.size_eq]
    simp [size, Chunk.stop]

theorem Holds.addLines {p : Program} {bytes : List UInt8} (holds : p.Holds bytes)
    (codes : List Code) (line : Nat) (fits : (bytes ++ codes.flatMap Code.bytes).length ≤ 256) :
    ∃ q, p.addLines .standard ((codes.map Code.line).zipIdx line) = .ok q ∧
      q.Holds (bytes ++ codes.flatMap Code.bytes) := by
  induction codes generalizing p bytes line with
  | nil =>
    refine ⟨p, rfl, ?_⟩
    rw [List.flatMap_nil, List.append_nil]
    exact holds
  | cons code codes ih =>
    rw [List.flatMap_cons, ← List.append_assoc] at fits ⊢
    have room : (bytes ++ code.bytes).length ≤ 256 := by
      rw [List.length_append] at fits
      omega
    obtain ⟨q, added, further⟩ := holds.addLine code line room
    obtain ⟨r, rest, complete⟩ := ih further (line + 1) fits
    refine ⟨r, ?_, complete⟩
    rw [List.map_cons, List.zipIdx_cons, Program.addLines, added]
    exact rest

end Program

theorem assemble_source {codes : List Code} (fits : (codes.flatMap Code.bytes).length ≤ 256) :
    assemble (source codes) = .ok (codes.flatMap Code.bytes) := by
  have lines : Text.lines (source codes).toList = codes.map Code.line := by
    rw [source, String.toList_ofList, Text.lines_flatMap_newline]
    intro text mem
    obtain ⟨code, -, rfl⟩ := List.mem_map.1 mem
    exact code.unbroken_line
  have start : Program.Holds {} [] := ⟨rfl, rfl, rfl⟩
  obtain ⟨p, laid, holds⟩ := start.addLines codes 1 fits
  have laid : Program.ofSource .standard (source codes) = .ok p := by
    rw [Program.ofSource_eq_addLines, lines, laid]
  rw [assemble, laid]
  show p.link = _
  rw [Program.link, holds.fixups_eq, holds.bytes_eq]
  rfl

def mixed : List Code :=
  [⟨.movConstReg, [255, 7], .cons rfl (.cons rfl .nil)⟩, ⟨.add, [0x35], .cons rfl .nil⟩,
    ⟨.loadIndirect, [1, 2], .cons rfl (.cons rfl .nil)⟩,
    ⟨.jmpZero, [0, 255], .cons rfl (.cons rfl .nil)⟩]

def filling : List Code :=
  mixed ++ List.replicate 245 ⟨.nop, [], .nil⟩

theorem assemble_source_filling :
    source mixed = "MOV NUM255 R7\nADD R3 R5\nMOV RM1 R2\nJZ R0 M255\n" ∧
      (filling.flatMap Code.bytes).length = 256 ∧
      assemble (source filling) = .ok (filling.flatMap Code.bytes) := by
  have length : (filling.flatMap Code.bytes).length = 256 := by decide +kernel
  refine ⟨by decide, length, ?_⟩
  exact assemble_source (Nat.le_of_eq length)

end Assembly
end ByteMachine
