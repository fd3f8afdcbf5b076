import ByteMachine.Engine.Pending
import ByteMachine.Log

/-!
This module contains the outcomes of a cycle, and what the engine says when an instruction ends.
-/

namespace ByteMachine

inductive Outcome where
  | invalidByte (byte : UInt8)
  | fetched (opcode : UInt8)
  | operandCollected (byte : UInt8)
  | executed (opcode : UInt8)
  | faulted (opcode : UInt8) (fault : Fault)
deriving DecidableEq

namespace Outcome

def completes : Outcome → Bool
  | .fetched _ => false
  | .operandCollected _ => false
  | .invalidByte _ => true
  | .executed _ => true
  | .faulted .. => true

end Outcome

namespace Pending

def outcome (p : Pending) : Except Fault Unit → Outcome
  | .ok () => .executed p.opcode
  | .error fault => .faulted p.opcode fault

def closing (p : Pending) : Except Fault Unit → Event
  | .ok () => .instructionExecuted p.opcode
  | .error fault => .error p.opcode p.position fault

def record (p : Pending) : Except Fault Unit → Log.Record
  | .ok () =>
    let operands := ", ".intercalate (p.collected.map Number.hex)
    ⟨.trace, s!"{Number.hex p.position}: {p.instruction.name} [{operands}]"⟩
  | .error fault =>
    ⟨.debug, s!"{Number.hex p.position}: {p.instruction.name} aborted: {fault.message}"⟩

@[simp]
theorem completes_outcome (p : Pending) (result : Except Fault Unit) :
    (p.outcome result).completes := by
  cases result <;> rfl

end Pending
end ByteMachine
