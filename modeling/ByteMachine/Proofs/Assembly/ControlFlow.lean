import ByteMachine.Proofs.Assembly.Layout
import ByteMachine.Proofs.Engine.Confinement

/-!
This module contains the control flow of assembled programs. If no instruction writes main memory
and jumps and calls go to labels, an engine that runs the program only ever stands at the start of
an instruction or behind the program.
-/

namespace ByteMachine

namespace Opcode

def jumps : List String :=
  ["JMP", "JC", "JNC", "JZ", "JNZ", "CALL"]

theorem targetIndex?_eq_some {op : Opcode} {index : Nat} (h : op.targetIndex? = some index) :
    op.mnemonic ∈ jumps ∧ op.sources ≠ [] ∧ index + 1 = op.operands.length := by
  cases op <;> cases h <;> decide

theorem writesMemory_eq_true {op : Opcode} (h : op.writesMemory) :
    op.mnemonic = "MOV" ∧
      (op.sources.getLast? = some .memory ∨ op.sources.getLast? = some .registerMemory) := by
  revert h
  cases op <;> decide

end Opcode

namespace Assembly

namespace Line

/--
The line holds no instruction that writes to main memory: no move whose destination, the last
operand, is a memory cell.
-/
def leavesMemory : Line → Bool
  | .instruction mnemonic operands =>
    mnemonic ≠ "MOV" ||
      operands.getLast?.all fun destination =>
        destination.kind ≠ .memory && destination.kind ≠ .registerMemory
  | _ => true

def jumpsToLabels : Line → Bool
  | .instruction mnemonic operands =>
    mnemonic ∉ Opcode.jumps ||
      operands.getLast?.all fun target =>
        match target with
        | .label _ => true
        | _ => false
  | _ => true

end Line

namespace Encodes

variable {mnemonic : String} {operands : List Operand} {op : Opcode} {cells : List Cell}

theorem fill_standard (encodes : Encodes .standard mnemonic operands op cells) :
    Fill op.operands operands cells := by
  obtain ⟨instruction, found, fill⟩ := encodes.fill
  rw [InstructionSet.lookup_standard_byte] at found
  cases found
  exact fill

theorem harmless {set : InstructionSet} (encodes : Encodes set mnemonic operands op cells)
    (leaves : (Line.instruction mnemonic operands).leavesMemory) : op.writesMemory = false := by
  rw [← Bool.not_eq_true]
  intro writes
  obtain ⟨rfl, sources⟩ := Opcode.select?_eq_some_iff.1 encodes.selected
  obtain ⟨mov, destination⟩ := Opcode.writesMemory_eq_true writes
  rw [sources, List.getLast?_map] at destination
  simp only [Line.leavesMemory, mov] at leaves
  cases last : operands.getLast? with
  | none => simp [last] at destination
  | some operand =>
    simp only [last, Option.map_some, Option.some.injEq] at destination
    rcases destination with kind | kind <;> simp [last, kind] at leaves

theorem target (encodes : Encodes .standard mnemonic operands op cells)
    (labels : (Line.instruction mnemonic operands).jumpsToLabels) {index : Nat}
    (indexed : op.targetIndex? = some index) : ∃ name, cells[index]? = some (.label name) := by
  obtain ⟨rfl, sources⟩ := Opcode.select?_eq_some_iff.1 encodes.selected
  obtain ⟨jump, some, position⟩ := Opcode.targetIndex?_eq_some indexed
  have fill := encodes.fill_standard
  simp only [Line.jumpsToLabels, jump] at labels
  cases last : operands.getLast? with
  | none =>
    rw [List.getLast?_eq_none_iff] at last
    rw [sources, last] at some
    contradiction
  | some operand =>
    cases operand <;> simp [last] at labels
    next name =>
      refine ⟨name, ?_⟩
      rw [← fill.getLast?_label last, List.getLast?_eq_getElem?, fill.length_eq, ← position]
      rfl

end Encodes

def parsedLines (source : String) : List Line :=
  (Text.lines source.toList).filterMap fun text => (parseLine text).toOption

namespace Program

def Boundary (p : Program) (address : UInt8) : Prop :=
  (∃ chunk ∈ p.chunks, chunk.offset = address.toNat) ∨ p.size ≤ address.toNat

namespace LaidOut

variable {set : InstructionSet} {lines : List (List Char × Nat)} {p : Program}

theorem boundary_of_split (laid : LaidOut set lines p) {before after : List Item}
    (split : Item.ofLines set lines = before ++ after) :
    p.Boundary (UInt8.ofNat (Item.size before)) := by
  have size_le := laid.size_le
  have starts : ∀ first item rest, Item.ofLines set lines = first ++ item :: rest →
      ∃ chunk ∈ p.chunks, chunk.offset = Item.size first ∧ Item.size first < 256 := by
    intro first item rest split
    refine ⟨⟨item.line, Item.size first, item.encoding.bytes⟩, ?_, rfl, ?_⟩
    . rw [laid.chunks_eq]
      exact Item.mem_chunks_iff.2 ⟨first, item, rest, split, by rw [Nat.zero_add]⟩
    . have mem : item ∈ Item.ofLines set lines := by simp [split]
      have := List.length_pos_iff.2 (Item.bytes_ne_nil mem)
      simp only [split, Item.size_append, Item.size_cons] at size_le
      omega
  cases after with
  | cons item rest =>
    obtain ⟨chunk, mem, offset, bound⟩ := starts before item rest split
    refine .inl ⟨chunk, mem, ?_⟩
    rw [offset, UInt8.toNat_ofNat']
    omega
  | nil =>
    rw [List.append_nil] at split
    rw [split] at size_le
    by_cases full : Item.size before = 256
    . -- behind a program that fills memory comes its first instruction
      cases before with
      | nil => contradiction
      | cons item rest =>
        obtain ⟨chunk, mem, offset, -⟩ := starts [] item rest split
        refine .inl ⟨chunk, mem, ?_⟩
        rw [offset, full]
        rfl
    . refine .inr ?_
      rw [laid.size_eq, split, UInt8.toNat_ofNat']
      omega

theorem boundary_zero (laid : LaidOut set lines p) : p.Boundary 0 := by
  have split : Item.ofLines set lines = [] ++ Item.ofLines set lines := rfl
  exact laid.boundary_of_split split

theorem boundary_of_declares (laid : LaidOut set lines p) {name : String} {symbol : Symbol}
    (declares : Declares set lines name symbol) : p.Boundary (UInt8.ofNat symbol.offset) := by
  obtain ⟨before, text, after, split, -, offset⟩ := declares
  rw [offset]
  apply laid.boundary_of_split
  rw [split, Item.ofLines, List.filterMap_append]
  rfl

theorem stands_behind (laid : LaidOut set lines p) {bytes : List UInt8}
    (length : bytes.length = p.size) {address : UInt8} (behind : p.size ≤ address.toNat) :
    Engine.Stands p.Boundary (Memory.ofBytes bytes) address .nop := by
  -- memory is zero there, which stands for the instruction that does nothing
  refine ⟨?_, .nil, rfl, ?_, ?_⟩
  . rw [Memory.get_ofBytes, List.getD_eq_getElem?_getD, List.getElem?_eq_none (by omega)]
    rfl
  . intro a none
    contradiction
  . have next : address + UInt8.ofNat Opcode.nop.operands.length = address := UInt8.add_zero address
    rw [next]
    by_cases last : address.toNat = 255
    . -- behind the last address comes the first, an instruction or again behind the program
      have around : address + 1 = 0 := by
        rw [← UInt8.toNat_inj, UInt8.toNat_add, last]
        rfl
      rw [around]
      exact laid.boundary_zero
    . have := address.toNat_lt
      refine .inr ?_
      rw [UInt8.toNat_add, UInt8.toNat_one]
      omega

section Item

variable {bytes : List UInt8} (linked : p.link = .ok bytes) {before after : List Item}
  {item : Item} (split : Item.ofLines set lines = before ++ item :: after) {value : UInt8}
  {cells : List Cell} (made : item.encoding = .ofCells (.byte value :: cells))

include linked split made in
theorem memory_item (laid : LaidOut set lines p) {start : UInt8}
    (place : start.toNat = Item.size before) :
    (Memory.ofBytes bytes).get start = value ∧
      Engine.bytesAfter (Memory.ofBytes bytes) start cells.length =
        cells.map (Cell.value (address p.symbols)) := by
  have size_le := laid.size_le
  have start_eq := Item.length_flatMap_linked (address p.symbols) before
  rw [← place] at start_eq
  have behind : bytes = before.flatMap (·.encoding.linked (address p.symbols)) ++
      value :: (cells.map (Cell.value (address p.symbols)) ++
        after.flatMap (·.encoding.linked (address p.symbols))) := by
    rw [(laid.link_eq_ok_iff.1 linked).2, split, List.flatMap_append, List.flatMap_cons, made,
      Encoding.linked_ofCells]
    rfl
  rw [behind]
  refine ⟨Engine.get_of_split start_eq.symm, ?_⟩
  have operands := Engine.bytesAfter_of_split value (cells.map (Cell.value (address p.symbols)))
    (after.flatMap (·.encoding.linked (address p.symbols))) start_eq.symm
  rw [List.length_map] at operands
  apply operands
  simp only [split, Item.size_append, Item.size_cons, made, Encoding.ofCells, List.length_map,
    List.length_cons] at size_le
  simp only [List.length_append, List.length_cons, List.length_map, start_eq, place]
  omega

include split made in
theorem boundary_behind_item (laid : LaidOut set lines p) {start : UInt8}
    (place : start.toNat = Item.size before) :
    p.Boundary (start + UInt8.ofNat cells.length + 1) := by
  have stop : start + UInt8.ofNat cells.length + 1 =
      UInt8.ofNat (Item.size (before ++ [item])) := by
    rw [← UInt8.toNat_inj]
    simp only [Item.size_append, Item.size_cons, Item.size_nil, made, Encoding.ofCells,
      List.length_map, List.length_cons, UInt8.toNat_add, UInt8.toNat_ofNat', UInt8.toNat_one,
      place]
    omega
  have split_behind : Item.ofLines set lines = (before ++ [item]) ++ after := by simp [split]
  rw [stop]
  exact laid.boundary_of_split split_behind

include linked split made in
theorem boundary_of_label (laid : LaidOut set lines p) {name : String}
    (mem : .label name ∈ cells) : p.Boundary (address p.symbols name) := by
  have mem : .label name ∈ Cell.byte value :: cells := by simp [mem]
  obtain ⟨index, reference⟩ := (mem_references_iff 0).2 mem
  obtain ⟨a, resolved⟩ := (laid.link_eq_ok_iff.1 linked).1 item (by simp [split]) (index, name)
    (by rw [made]; exact reference)
  obtain ⟨symbol, declares, offset⟩ := laid.address_eq resolved
  have here : address p.symbols name = UInt8.ofNat symbol.offset := by
    rw [address, resolved, offset, UInt8.ofNat_toNat]
  rw [here]
  exact laid.boundary_of_declares declares

end Item

theorem stands_item (laid : LaidOut .standard lines p) {bytes : List UInt8}
    (linked : p.link = .ok bytes)
    (leaves : ∀ text ∈ lines, ∀ line, parseLine text.1 = .ok line → line.leavesMemory)
    (labels : ∀ text ∈ lines, ∀ line, parseLine text.1 = .ok line → line.jumpsToLabels)
    {before after : List Item} {item : Item}
    (split : Item.ofLines .standard lines = before ++ item :: after) {start : UInt8}
    (place : start.toNat = Item.size before) :
    ∃ op, Engine.Stands p.Boundary (Memory.ofBytes bytes) start op := by
  have mem : item ∈ Item.ofLines .standard lines := by simp [split]
  obtain ⟨text, mnemonic, operands, line, parses, encoded⟩ := Item.mem_ofLines_iff.1 mem
  obtain ⟨op, cells, encodes, made⟩ := encode_eq_ok_iff.1 encoded
  have fill := encodes.fill_standard
  -- in memory stand the cells of the instruction, each label as its address
  have memory := memory_item linked split made laid place
  rw [fill.length_eq] at memory
  refine ⟨op, memory.1, ?_, encodes.harmless (leaves _ line _ parses), ?_, ?_⟩
  . rw [memory.2]
    exact fill.accept _
  . rw [memory.2]
    intro a found
    obtain ⟨index, indexed, found⟩ := Option.bind_eq_some_iff.1 found
    obtain ⟨name, label⟩ := encodes.target (labels _ line _ parses) indexed
    rw [List.getElem?_map, label, Option.map_some, Option.some.injEq] at found
    rw [← found]
    exact boundary_of_label linked split made laid (List.mem_of_getElem? label)
  . rw [← fill.length_eq]
    exact boundary_behind_item split made laid place

theorem closed_boundary (laid : LaidOut .standard lines p) {bytes : List UInt8}
    (linked : p.link = .ok bytes)
    (leaves : ∀ text ∈ lines, ∀ line, parseLine text.1 = .ok line → line.leavesMemory)
    (labels : ∀ text ∈ lines, ∀ line, parseLine text.1 = .ok line → line.jumpsToLabels) :
    Engine.Closed p.Boundary (Memory.ofBytes bytes) := by
  rintro start (⟨chunk, mem, offset⟩ | behind)
  . rw [laid.chunks_eq, Item.mem_chunks_iff] at mem
    obtain ⟨before, item, after, split, rfl⟩ := mem
    have place : start.toNat = Item.size before := by
      rw [← offset, Nat.zero_add]
    exact laid.stands_item linked leaves labels split place
  . exact ⟨.nop, laid.stands_behind (laid.length_of_link linked) behind⟩

end LaidOut

end Program

theorem parsed_of_mem_lines {source : String} {P : Line → Prop}
    (all : ∀ line ∈ parsedLines source, P line) :
    ∀ text ∈ (Text.lines source.toList).zipIdx 1, ∀ line, parseLine text.1 = .ok line → P line := by
  intro text mem line parses
  apply all
  rw [parsedLines, List.mem_filterMap]
  refine ⟨text.1, List.fst_mem_of_mem_zipIdx mem, ?_⟩
  rw [parses]
  rfl

theorem control_flow_of_assemble {source : String} {p : Program} {bytes : List UInt8}
    (laid : Program.ofSource .standard source = .ok p) (assembled : assemble source = .ok bytes)
    (leaves : ∀ line ∈ parsedLines source, line.leavesMemory)
    (labels : ∀ line ∈ parsedLines source, line.jumpsToLabels) {e : Engine}
    (standard : e.instructions = .standard) (n : Nat) :
    let reached := (e.performAll (.load bytes :: List.replicate n .step)).engine
    p.Boundary reached.machine.programCounter ∧
      (∀ frame ∈ reached.machine.callStack.frames, p.Boundary frame) ∧
      (∀ byte, reached.step.result ≠ .invalidByte byte) ∧
      ∀ opcode byte kind, reached.step.result ≠ .faulted opcode (.operandOutOfRange byte kind) := by
  intro reached
  have lines := Program.laidOut_of_ofSource laid
  have linked : p.link = .ok bytes := by
    rw [assemble, laid] at assembled
    exact assembled
  have closed := lines.closed_boundary linked (parsed_of_mem_lines leaves)
    (parsed_of_mem_lines labels)
  have loaded : Engine.Confined p.Boundary (Memory.ofBytes bytes) (e.load bytes).engine := by
    refine ⟨?_, rfl, rfl, lines.boundary_zero, ?_⟩
    . rw [Engine.instructions_load, standard]
    . intro frame mem
      contradiction
  have confined : Engine.Confined p.Boundary (Memory.ofBytes bytes) reached := loaded.steps closed n
  obtain ⟨-, op, outcome⟩ := confined.step closed
  refine ⟨confined.programCounter, confined.frames, ?_, ?_⟩
  . intro byte invalid
    rcases outcome with executed | ⟨fault, -, faulted⟩
    . rw [executed] at invalid
      contradiction
    . rw [faulted] at invalid
      contradiction
  . intro opcode byte kind refused
    rcases outcome with executed | ⟨fault, may, faulted⟩
    . rw [executed] at refused
      contradiction
    . rw [faulted] at refused
      cases refused
      exact may

def looping : String :=
  "CALL :done\n:again\nJMP :again\n:done\nRET\n"

theorem control_flow_of_looping :
    ∃ p : Program,
      Program.ofSource .standard looping = .ok p ∧
      assemble looping = .ok [0x25, 4, 0x20, 2, 0x26] ∧
      (∀ line ∈ parsedLines looping, line.leavesMemory) ∧
      (∀ line ∈ parsedLines looping, line.jumpsToLabels) ∧
      p.chunks.map Chunk.offset = [0, 2, 4] ∧
      let reached := ((Engine.new {}).performAll
        (.load [0x25, 4, 0x20, 2, 0x26] :: List.replicate 1 .step)).engine
      reached.machine.programCounter = 4 ∧
      reached.machine.callStack.frames = [2] ∧
      p.Boundary reached.machine.programCounter ∧
      (∀ frame ∈ reached.machine.callStack.frames, p.Boundary frame) ∧
      (∀ byte, reached.step.result ≠ .invalidByte byte) ∧
      ∀ opcode byte kind, reached.step.result ≠ .faulted opcode (.operandOutOfRange byte kind) := by
  have leaves : ∀ line ∈ parsedLines looping, line.leavesMemory := by decide
  have labels : ∀ line ∈ parsedLines looping, line.jumpsToLabels := by decide
  have assembled : assemble looping = .ok [0x25, 4, 0x20, 2, 0x26] := rfl
  refine ⟨_, rfl, assembled, leaves, labels, rfl, ?_, ?_, ?_⟩
  . decide +kernel
  . decide +kernel
  . exact control_flow_of_assemble rfl assembled leaves labels rfl 1

end Assembly
end ByteMachine
