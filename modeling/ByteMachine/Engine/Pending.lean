import ByteMachine.Instruction

/-!
This module contains the pending instruction: one whose opcode has been fetched and whose operand
bytes are being collected.
-/

namespace ByteMachine

@[ext]
structure Pending where
  opcode : UInt8
  position : UInt8
  instruction : Instruction
  collected : List UInt8 := []

namespace Pending

def required (p : Pending) : Nat :=
  p.instruction.operands.length

def missing (p : Pending) : Nat :=
  p.required - p.collected.length

def isReady (p : Pending) : Bool :=
  p.missing = 0

def nextKind (p : Pending) : Option OperandKind :=
  p.instruction.operands[p.collected.length]?

def collect (p : Pending) (byte : UInt8) : Pending :=
  { p with collected := p.collected ++ [byte] }

def validate (p : Pending) : Except Fault Unit :=
  match (p.instruction.operands.zip p.collected).find? fun (kind, byte) => !kind.accepts byte with
  | some (kind, byte) => .error (.operandOutOfRange byte kind)
  | none => .ok ()

def execute (p : Pending) (machine : Machine) : Completion Unit :=
  match p.validate with
  | .ok () => (p.instruction.execute ⟨p.collected⟩).run (.start machine)
  | .error fault => { value := .error fault, execution := .start machine }

@[simp]
theorem missing_collect (p : Pending) (byte : UInt8) :
    (p.collect byte).missing = p.missing - 1 := by
  simp [collect, missing, required, Nat.sub_sub]

theorem isReady_iff (p : Pending) : p.isReady ↔ p.required ≤ p.collected.length := by
  simp [isReady, missing, Nat.sub_eq_zero_iff_le]

theorem isReady_eq_false_iff (p : Pending) :
    p.isReady = false ↔ p.collected.length < p.required := by
  rw [← Bool.not_eq_true, isReady_iff, Nat.not_le]

theorem nextKind_eq_none_iff (p : Pending) : p.nextKind = none ↔ p.isReady := by
  simp [nextKind, isReady_iff, required]

end Pending
end ByteMachine
