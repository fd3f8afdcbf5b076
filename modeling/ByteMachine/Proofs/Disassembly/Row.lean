import ByteMachine.Disassembly
import ByteMachine.Proofs.Engine.AtomicStep

/-!
This module contains what a row of a disassembly is made of: the bytes that the engine would take
for an instruction, and an operand for each of them, which tells if its kind does not accept it.
-/

namespace ByteMachine
namespace Disassembly

theorem following_eq_bytesAfter (memory : Memory) (address : UInt8) (n : Nat) :
    following memory address n = Engine.bytesAfter memory address n := by
  induction n generalizing address with
  | zero => rfl
  | succ n ih => rw [following, ih, Engine.bytesAfter_succ]

def bytesFrom (memory : Memory) (start n : Nat) : List UInt8 :=
  (List.range n).map fun i => memory.get (UInt8.ofNat (start + i))

theorem bytesFrom_add (memory : Memory) (start m n : Nat) :
    bytesFrom memory start (m + n) =
      bytesFrom memory start m ++ bytesFrom memory (start + m) n := by
  simp only [bytesFrom, List.range_add, List.map_append, List.map_map, Function.comp_def,
    Nat.add_assoc]

section Row

variable {set : InstructionSet} {memory : Memory} {address : UInt8}

theorem row_of_unbound (unbound : set.lookup (memory.get address) = none) :
    row set memory address =
      { address
        bytes := [memory.get address]
        mnemonic := ".byte"
        operands := [s!"0x{Number.hex (memory.get address)}"]
        isIllegal := true } := by
  simp only [row, unbound]

theorem row_of_bound {instruction : Instruction}
    (bound : set.lookup (memory.get address) = some instruction) :
    row set memory address =
      { address
        bytes := memory.get address ::
          Engine.bytesAfter memory address instruction.operands.length
        mnemonic := instruction.name
        operands := instruction.operands.zipWith showOperand
          (Engine.bytesAfter memory address instruction.operands.length)
        isIllegal := false } := by
  simp only [row, bound, following_eq_bytesAfter]

theorem isIllegal_row_iff :
    (row set memory address).isIllegal = true ↔ set.lookup (memory.get address) = none := by
  cases bound : set.lookup (memory.get address) with
  | none => simp [row_of_unbound bound]
  | some instruction => simp [row_of_bound bound]

theorem bytes_row (set : InstructionSet) (memory : Memory) (address : UInt8) :
    (row set memory address).bytes =
      bytesFrom memory address.toNat (row set memory address).length := by
  cases bound : set.lookup (memory.get address) with
  | none => simp [row_of_unbound bound, Row.length, bytesFrom]
  | some instruction =>
    simp [row_of_bound bound, Row.length, bytesFrom, Engine.bytesAfter, List.range_succ_eq_map,
      UInt8.ofNat_add]

end Row

def refused (byte : UInt8) : String :=
  "?0x" ++ Number.hex byte

theorem showOperand_of_refused {kind : OperandKind} {byte : UInt8}
    (illegal : kind.accepts byte = false) : showOperand kind byte = refused byte := by
  unfold showOperand
  rw [if_neg (by simp [illegal])]
  rfl

theorem not_mem_toDigits {n : Nat} : '?' ∉ Nat.toDigits 10 n := by
  intro mem
  exact absurd (Number.isDigit_of_mem_toDigits mem) (by decide)

theorem not_mem_hexPair (byte : UInt8) : '?' ∉ Number.hexPair byte := by
  revert byte
  apply Byte.forall_of_fin
  decide +kernel

theorem not_mem_showOperand {kind : OperandKind} {byte : UInt8} (legal : kind.accepts byte) :
    '?' ∉ (showOperand kind byte).toList := by
  unfold showOperand
  rw [if_pos legal]
  cases kind with
  | constant => simp [not_mem_toDigits]
  | register | registerPair => simp [toString, not_mem_toDigits]
  | memoryAddress => simp [toString, Number.hex, not_mem_hexPair]

theorem showOperand_ne_refused {kind : OperandKind} {byte : UInt8} (legal : kind.accepts byte)
    (other : UInt8) : showOperand kind byte ≠ refused other := by
  intro same
  apply not_mem_showOperand legal
  rw [same, refused, String.toList_append]
  exact List.mem_append_left _ (by decide)

end Disassembly
end ByteMachine
