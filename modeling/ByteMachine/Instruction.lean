import ByteMachine.Operands
import ByteMachine.Routine
import ByteMachine.Text.Quoted

/-!
This module contains instructions: a name, the kinds of the operand bytes that follow the opcode,
and the routine that executes them.
-/

namespace ByteMachine

structure Instruction where
  name : String
  description : String
  operands : List OperandKind
  execute : Operands → Routine Unit

namespace Instruction

def encodedLength (i : Instruction) : Nat :=
  1 + i.operands.length

def summary (i : Instruction) : String :=
  let operands := ", ".intercalate (i.operands.map OperandKind.name)
  "InstructionDescriptor \x7b name: " ++ Text.quote i.name ++ ", operands: [" ++ operands ++
    "], .. \x7d"

end Instruction
end ByteMachine
