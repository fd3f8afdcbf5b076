import ByteMachine.Proofs.Assembly.ControlFlow
import ByteMachine.Proofs.Assembly.Source
import ByteMachine.Proofs.Disassembly.Row

/-!
This module contains the listing of assembled programs: its rows are the instructions that were
written, in the places where they were laid out.
-/

namespace ByteMachine

namespace Disassembly

theorem not_mem_zipWith_showOperand {kinds : List OperandKind} {bytes : List UInt8}
    (legal : OperandKind.Accept kinds bytes) :
    ∀ operand ∈ kinds.zipWith showOperand bytes, '?' ∉ operand.toList := by
  induction legal with
  | nil => exact List.forall_mem_nil _
  | cons first rest ih =>
    rw [List.zipWith_cons_cons, List.forall_mem_cons]
    exact ⟨not_mem_showOperand first, ih⟩

end Disassembly

namespace Assembly

open Disassembly

structure Shows (row : Row) (op : Opcode) : Prop where
  legal : row.isIllegal = false
  mnemonic : row.mnemonic = op.name
  opcode : row.bytes.head? = some op.byte
  length : row.length = op.instruction.encodedLength
  unmarked : ∀ operand ∈ row.operands, '?' ∉ operand.toList

structure Occupies (row : Row) (chunk : Chunk) (linked : List UInt8) : Prop where
  address : row.address.toNat = chunk.offset
  bytes : row.bytes = (linked.drop chunk.offset).take chunk.bytes.length
  length : row.length = chunk.bytes.length
  stop_le : row.stop ≤ 256

theorem shows_row {memory : Memory} {address : UInt8} {op : Opcode}
    (opcode : memory.get address = op.byte)
    (legal : OperandKind.Accept op.operands
      (Engine.bytesAfter memory address op.operands.length)) :
    let shown := row .standard memory address
    Shows shown op ∧ shown.bytes =
      op.byte :: Engine.bytesAfter memory address op.operands.length := by
  have bound : InstructionSet.standard.lookup (memory.get address) = some op.instruction := by
    rw [opcode, InstructionSet.lookup_standard_byte]
  rw [row_of_bound bound, opcode]
  refine ⟨⟨rfl, rfl, rfl, ?_, not_mem_zipWith_showOperand legal⟩, rfl⟩
  simp [Row.length, Engine.bytesAfter, Instruction.encodedLength, Opcode.instruction, Nat.add_comm]

namespace Program
namespace LaidOut

variable {lines : List (List Char × Nat)} {p : Program}

theorem shows_item (laid : LaidOut .standard lines p) {bytes : List UInt8}
    (linked : p.link = .ok bytes) {before after : List Item} {item : Item}
    (split : Item.ofLines .standard lines = before ++ item :: after) {start : UInt8}
    (place : start.toNat = Item.size before) :
    ∃ text mnemonic operands op, (text, item.line) ∈ lines ∧
      parseLine text = .ok (.instruction mnemonic operands) ∧
      Opcode.select? mnemonic (operands.map Operand.kind) = some op ∧
      Shows (row .standard (Memory.ofBytes bytes) start) op ∧
      (row .standard (Memory.ofBytes bytes) start).bytes =
        item.encoding.linked (address p.symbols) := by
  have mem : item ∈ Item.ofLines .standard lines := by simp [split]
  obtain ⟨text, mnemonic, operands, line, parses, encoded⟩ := Item.mem_ofLines_iff.1 mem
  obtain ⟨op, cells, encodes, made⟩ := encode_eq_ok_iff.1 encoded
  have fill := encodes.fill_standard
  obtain ⟨opcode, behind⟩ := memory_item linked split made laid place
  have accept : OperandKind.Accept op.operands (cells.map (Cell.value (address p.symbols))) :=
    fill.accept _
  rw [fill.length_eq] at behind
  rw [← behind] at accept
  obtain ⟨shows, row⟩ := shows_row opcode accept
  refine ⟨text, mnemonic, operands, op, line, parses, encodes.selected, shows, ?_⟩
  rw [row, behind, made, Encoding.linked_ofCells]
  rfl

theorem stop_le_of_split (laid : LaidOut .standard lines p) {before after : List Item} {item : Item}
    (split : Item.ofLines .standard lines = before ++ item :: after) :
    Item.size before < 256 ∧ Item.size before + item.encoding.bytes.length ≤ 256 := by
  have size_le := laid.size_le
  have mem : item ∈ Item.ofLines .standard lines := by simp [split]
  have := List.length_pos_iff.2 (Item.bytes_ne_nil mem)
  simp only [split, Item.size_append, Item.size_cons] at size_le
  omega

theorem length_row_item (laid : LaidOut .standard lines p) {bytes : List UInt8}
    (linked : p.link = .ok bytes) {before after : List Item} {item : Item}
    (split : Item.ofLines .standard lines = before ++ item :: after) {start : UInt8}
    (place : start.toNat = Item.size before) :
    (row .standard (Memory.ofBytes bytes) start).length = item.encoding.bytes.length := by
  obtain ⟨_, _, _, _, _, _, _, _, row⟩ := laid.shows_item linked split place
  rw [Row.length, row, Encoding.length_linked]

theorem listing_items (laid : LaidOut .standard lines p) {bytes : List UInt8}
    (linked : p.link = .ok bytes) {before after : List Item}
    (split : Item.ofLines .standard lines = before ++ after) :
    listing .standard (Memory.ofBytes bytes) (Item.size before) after.length =
      (Item.chunks (Item.size before) after).map fun chunk =>
        row .standard (Memory.ofBytes bytes) (UInt8.ofNat chunk.offset) := by
  -- each row is as long as its instruction, so the next one begins where the next instruction does
  induction after generalizing before with
  | nil => rfl
  | cons item after ih =>
    obtain ⟨inside, -⟩ := laid.stop_le_of_split split
    have length := laid.length_row_item linked split (UInt8.toNat_ofNat_of_lt' inside)
    have behind : Item.ofLines .standard lines = (before ++ [item]) ++ after := by simp [split]
    have rest := ih behind
    rw [Item.size_append, Item.size_cons, Item.size_nil, Nat.add_zero] at rest
    rw [List.length_cons, listing, if_pos inside]
    simp only [length, rest]
    rfl

theorem listing_chunks (laid : LaidOut .standard lines p) {bytes : List UInt8}
    (linked : p.link = .ok bytes) :
    listing .standard (Memory.ofBytes bytes) 0 p.chunks.length =
      p.chunks.map fun chunk =>
        row .standard (Memory.ofBytes bytes) (UInt8.ofNat chunk.offset) := by
  have same := congrArg List.length (Item.map_chunks 0 (Item.ofLines .standard lines))
  rw [List.length_map, List.length_map] at same
  have split : Item.ofLines .standard lines = [] ++ Item.ofLines .standard lines := rfl
  rw [laid.chunks_eq, same]
  exact laid.listing_items linked split

theorem bytes_item (laid : LaidOut .standard lines p) {bytes : List UInt8}
    (linked : p.link = .ok bytes) {before after : List Item} {item : Item}
    (split : Item.ofLines .standard lines = before ++ item :: after) :
    (bytes.drop (Item.size before)).take item.encoding.bytes.length =
      item.encoding.linked (address p.symbols) := by
  rw [(laid.link_eq_ok_iff.1 linked).2, split, List.flatMap_append, List.flatMap_cons,
    List.drop_left' (Item.length_flatMap_linked _ _), List.take_left' (Encoding.length_linked _ _)]

theorem toNat_offset (laid : LaidOut .standard lines p) {chunk : Chunk} (mem : chunk ∈ p.chunks) :
    (UInt8.ofNat chunk.offset).toNat = chunk.offset := by
  rw [laid.chunks_eq, Item.mem_chunks_iff] at mem
  obtain ⟨before, item, after, split, rfl⟩ := mem
  rw [Nat.zero_add]
  exact UInt8.toNat_ofNat_of_lt' (laid.stop_le_of_split split).1

theorem occupies_row (laid : LaidOut .standard lines p) {bytes : List UInt8}
    (linked : p.link = .ok bytes) {chunk : Chunk} (mem : chunk ∈ p.chunks) :
    let shown := row .standard (Memory.ofBytes bytes) (UInt8.ofNat chunk.offset)
    Occupies shown chunk bytes ∧
      ∃ text mnemonic operands op, (text, chunk.line) ∈ lines ∧
        parseLine text = .ok (.instruction mnemonic operands) ∧
        Opcode.select? mnemonic (operands.map Operand.kind) = some op ∧
        Shows shown op := by
  have place := laid.toNat_offset mem
  rw [laid.chunks_eq, Item.mem_chunks_iff] at mem
  obtain ⟨before, item, after, split, rfl⟩ := mem
  simp only [Nat.zero_add] at place ⊢
  have length := laid.length_row_item linked split place
  obtain ⟨text, mnemonic, operands, op, line, parses, selected, shows, shown⟩ :=
    laid.shows_item linked split place
  refine ⟨?_, text, mnemonic, operands, op, line, parses, selected, shows⟩
  constructor
  . rw [address_row, place]
  . rw [shown, laid.bytes_item linked split]
  . exact length
  . rw [Row.stop, address_row, place, length]
    exact (laid.stop_le_of_split split).2

theorem offset_next (laid : LaidOut .standard lines p) {i : Nat} {chunk next : Chunk}
    (found : p.chunks[i]? = some chunk) (after : p.chunks[i + 1]? = some next) :
    next.offset = chunk.stop := by
  rw [laid.chunks_eq] at found after
  have here := Item.offset_of_getElem?_chunks found
  have there := Item.offset_of_getElem?_chunks after
  rw [List.take_add_one, found, Option.toList_some, List.flatMap_append,
    List.length_append] at there
  rw [there, Chunk.stop, here, List.flatMap_singleton, Nat.add_assoc]

end LaidOut
end Program

theorem listing_of_assemble {source : String} {p : Program} {bytes : List UInt8}
    (laid : Program.ofSource .standard source = .ok p) (assembled : assemble source = .ok bytes) :
    let rows := listing .standard (Memory.ofBytes bytes) 0 p.chunks.length
    rows.length = p.chunks.length ∧
    ∀ i chunk, p.chunks[i]? = some chunk →
      ∃ row, rows[i]? = some row ∧ Occupies row chunk bytes ∧
        (∀ next, rows[i + 1]? = some next → next.address.toNat = row.stop) ∧
        ∃ text mnemonic operands op, (text, chunk.line) ∈ numberedLines source ∧
          parseLine text = .ok (.instruction mnemonic operands) ∧
          Opcode.select? mnemonic (operands.map Operand.kind) = some op ∧
          Shows row op := by
  intro rows
  have lines := Program.laidOut_of_ofSource laid
  have linked : p.link = .ok bytes := by
    rw [assemble, laid] at assembled
    exact assembled
  have rows_eq : rows = _ := lines.listing_chunks linked
  refine ⟨by rw [rows_eq, List.length_map], ?_⟩
  intro i chunk found
  obtain ⟨occupies, written⟩ := lines.occupies_row linked (List.mem_of_getElem? found)
  refine ⟨_, by rw [rows_eq, List.getElem?_map, found]; rfl, occupies, ?_, written⟩
  intro next after
  rw [rows_eq, List.getElem?_map] at after
  obtain ⟨behind, there, rfl⟩ := Option.map_eq_some_iff.1 after
  have place := (lines.occupies_row linked (List.mem_of_getElem? there)).1.address
  rw [place, lines.offset_next found there, Chunk.stop, Row.stop, occupies.address,
    occupies.length]

def spinning : String :=
  "ADD R1 R2\n:top ; a loop\nMOV RM3 R4\nJNZ R4 :top\n"

theorem listing_of_spinning :
    ∃ p : Program,
      Program.ofSource .standard spinning = .ok p ∧
      assemble spinning = .ok [0x10, 0x12, 0x06, 3, 4, 0x24, 4, 2] ∧
      p.chunks = [⟨1, 0, [0x10, 0x12]⟩, ⟨3, 2, [0x06, 3, 4]⟩, ⟨4, 5, [0x24, 4, 0]⟩] ∧
      let rows := listing .standard (Memory.ofBytes [0x10, 0x12, 0x06, 3, 4, 0x24, 4, 2]) 0 3
      rows.length = 3 ∧
      ∃ row, rows[2]? = some row ∧ row.address.toNat = 5 ∧ row.bytes = [0x24, 4, 2] ∧
        row.stop ≤ 256 ∧ Shows row .jmpNotZero := by
  refine ⟨_, rfl, rfl, rfl, ?_⟩
  have assembled : assemble spinning = .ok [0x10, 0x12, 0x06, 3, 4, 0x24, 4, 2] := rfl
  have listed := listing_of_assemble (rfl : Program.ofSource .standard spinning = .ok _) assembled
  obtain ⟨row, found, occupies, -, _, _, _, op, -, -, -, shows⟩ :=
    listed.2 2 ⟨4, 5, [0x24, 4, 0]⟩ rfl
  have bytes : row.bytes = [0x24, 4, 2] := occupies.bytes
  have opcode := shows.opcode
  rw [bytes] at opcode
  cases Opcode.byte_injective (Option.some.inj opcode : Opcode.jmpNotZero.byte = op.byte)
  exact ⟨listed.1, row, found, occupies.address, bytes, occupies.stop_le, shows⟩

end Assembly
end ByteMachine
