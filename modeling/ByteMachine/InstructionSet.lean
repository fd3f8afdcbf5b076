import ByteMachine.Instruction.Standard

/-!
This module contains instruction sets: which instruction a byte stands for, if any.
-/

namespace ByteMachine

structure InstructionSet where
  lookup : UInt8 → Option Instruction

namespace InstructionSet

inductive Error where
  | duplicateOpcode (byte : UInt8)
deriving DecidableEq

def Error.message : Error → String
  | .duplicateOpcode byte => s!"opcode 0x{Number.hex byte} is already registered"

def empty : InstructionSet :=
  ⟨fun _ => none⟩

def standard : InstructionSet :=
  ⟨fun byte => (Opcode.ofByte? byte).map Opcode.instruction⟩

def register (set : InstructionSet) (byte : UInt8) (instruction : Instruction) :
    Except Error InstructionSet :=
  match set.lookup byte with
  | some _ => .error (.duplicateOpcode byte)
  | none => .ok ⟨fun b => if b = byte then some instruction else set.lookup b⟩

def registerAll (set : InstructionSet) (table : List (UInt8 × Instruction)) :
    Except Error InstructionSet :=
  table.foldlM (fun set (byte, instruction) => set.register byte instruction) set

def ofTable (table : List (UInt8 × Instruction)) : Except Error InstructionSet :=
  empty.registerAll table

def toTable (set : InstructionSet) : List (UInt8 × Instruction) :=
  Memory.addresses.filterMap fun byte => (set.lookup byte).map (byte, ·)

def summary (set : InstructionSet) : String :=
  let entries := set.toTable.map fun (byte, i) => s!"{byte.toNat}: {Text.quote i.name}"
  "\x7b" ++ ", ".intercalate entries ++ "\x7d"

@[simp]
theorem lookup_standard_byte (op : Opcode) : standard.lookup op.byte = some op.instruction := by
  simp [standard]

theorem lookup_standard_eq_some_iff {byte : UInt8} {instruction : Instruction} :
    standard.lookup byte = some instruction ↔
      ∃ op : Opcode, byte = op.byte ∧ instruction = op.instruction := by
  constructor
  . intro bound
    obtain ⟨op, found, rfl⟩ := Option.map_eq_some_iff.1 bound
    exact ⟨op, (Opcode.byte_of_ofByte? found).symm, rfl⟩
  . rintro ⟨op, rfl, rfl⟩
    exact lookup_standard_byte op

theorem lookup_standard_eq_none_iff {byte : UInt8} :
    standard.lookup byte = none ↔ Opcode.ofByte? byte = none :=
  Option.map_eq_none_iff

theorem register_eq_ok_iff {set result : InstructionSet} {byte : UInt8}
    {instruction : Instruction} :
    set.register byte instruction = .ok result ↔
      set.lookup byte = none ∧
        ∀ b, result.lookup b = if b = byte then some instruction else set.lookup b := by
  obtain ⟨lookup⟩ := result
  simp only [register]
  cases set.lookup byte with
  | some _ => simp
  | none => simp [funext_iff, eq_comm]

end InstructionSet
end ByteMachine
