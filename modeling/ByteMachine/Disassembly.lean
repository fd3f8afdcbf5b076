import ByteMachine.Host
import ByteMachine.InstructionSet

/-!
This module contains the logic to list the contents of memory as instructions.
-/

namespace ByteMachine
namespace Disassembly

structure Row where
  address : UInt8
  bytes : List UInt8
  mnemonic : String
  operands : List String
  isIllegal : Bool
deriving DecidableEq

namespace Row

def length (row : Row) : Nat :=
  row.bytes.length

def stop (row : Row) : Nat :=
  row.address.toNat + row.length

def operandText (row : Row) : String :=
  ", ".intercalate row.operands

def text (row : Row) : String :=
  if row.operandText = "" then row.mnemonic else s!"{row.mnemonic} {row.operandText}"

end Row

def showOperand (kind : OperandKind) (byte : UInt8) : String :=
  if kind.accepts byte then
    match kind with
    | .constant => toString byte.toNat
    | .register => s!"R{byte.toNat}"
    | .memoryAddress => s!"[0x{Number.hex byte}]"
    | .registerPair => s!"R{(byte >>> 4).toNat} -> R{(byte &&& 0x0F).toNat}"
  else
    s!"?0x{Number.hex byte}"

def following (memory : Memory) (address : UInt8) : Nat → List UInt8
  | 0 => []
  | n + 1 => memory.get (address + 1) :: following memory (address + 1) n

def row (set : InstructionSet) (memory : Memory) (address : UInt8) : Row :=
  let opcode := memory.get address
  match set.lookup opcode with
  | none =>
    { address, bytes := [opcode], mnemonic := ".byte", operands := [s!"0x{Number.hex opcode}"]
      isIllegal := true }
  | some i =>
    let operands := following memory address i.operands.length
    { address, bytes := opcode :: operands, mnemonic := i.name
      operands := i.operands.zipWith showOperand operands, isIllegal := false }

def listing (set : InstructionSet) (memory : Memory) (start : Nat) : Nat → List Row
  | 0 => []
  | count + 1 =>
    if start < 256 then
      let row := row set memory (UInt8.ofNat start)
      row :: listing set memory (start + row.length) count
    else
      []

/--
The bytes of a row in a list: three lists of three words each, and two bytes in a word of their own.
-/
def Row.room (host : Host) : Nat :=
  10 * host.wordBytes

def disassemble (host : Host) (set : InstructionSet) (memory : Memory) (start : UInt8)
    (count : Nat) : Except Crash (List Row) := do
  host.allocate (count * Row.room host)
  return listing set memory start.toNat count

@[simp]
theorem length_following (memory : Memory) (address : UInt8) (n : Nat) :
    (following memory address n).length = n := by
  induction n generalizing address with
  | zero => rfl
  | succ n ih => simp [following, ih]

theorem length_row_pos (set : InstructionSet) (memory : Memory) (address : UInt8) :
    0 < (row set memory address).length := by
  simp only [row]
  split <;> simp [Row.length]

@[simp]
theorem address_row (set : InstructionSet) (memory : Memory) (address : UInt8) :
    (row set memory address).address = address := by
  simp only [row]
  split <;> rfl

def leading (set : InstructionSet) (memory : Memory) (center : UInt8) (address : Nat) : List Row :=
  if address < center.toNat then
    let next := row set memory (UInt8.ofNat address)
    if center.toNat < address + next.length then
      []
    else
      next :: leading set memory center (address + next.length)
  else
    []
termination_by center.toNat - address
decreasing_by
  have := length_row_pos set memory (UInt8.ofNat address)
  omega

def window (set : InstructionSet) (memory : Memory) (center : UInt8) (before after : Nat) :
    List Row :=
  let ahead := leading set memory center 0
  ahead.drop (ahead.length - before) ++ listing set memory center.toNat (after + 1)

def disassembleAround (host : Host) (set : InstructionSet) (memory : Memory) (center : UInt8)
    (before after : Nat) : Except Crash (List Row) := do
  let ahead := leading set memory center 0
  let rows ← disassemble host set memory center (← host.increment after)
  return ahead.drop (ahead.length - before) ++ rows

theorem length_listing_le (set : InstructionSet) (memory : Memory) (start count : Nat) :
    (listing set memory start count).length ≤ count := by
  induction count generalizing start with
  | zero => simp [listing]
  | succ count ih =>
    rw [listing]
    split
    . simpa using ih _
    . simp

end Disassembly
end ByteMachine
