import ByteMachine.OperandKind
import ByteMachine.Text.Number

/-!
This module contains the faults an instruction can end in. A fault aborts the instruction that
raised it and nothing else.
-/

namespace ByteMachine

inductive Fault where
  | operandOutOfRange (byte : UInt8) (expected : OperandKind)
  | parameterOutOfRange (value limit : UInt8)
  | divideByZero
  | callStackOverflow (depth : Nat)
  | callStackUnderflow
deriving DecidableEq

namespace Fault

inductive Class where
  | operand
  | runtime
deriving DecidableEq

def toClass : Fault → Class
  | .operandOutOfRange .. => .operand
  | .parameterOutOfRange .. => .operand
  | .divideByZero => .runtime
  | .callStackOverflow _ => .runtime
  | .callStackUnderflow => .runtime

def message : Fault → String
  | .operandOutOfRange byte expected =>
    s!"operand byte 0x{Number.hex byte} is not a valid {expected.label}"
  | .parameterOutOfRange value limit =>
    s!"parameter {value.toNat} is out of range (limit {limit.toNat})"
  | .divideByZero => "division by zero"
  | .callStackOverflow depth => s!"call stack overflow (depth {depth})"
  | .callStackUnderflow => "return with empty call stack"

end Fault
end ByteMachine
