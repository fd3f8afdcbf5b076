import ByteMachine.Fault

/-!
This module contains the operand bytes of a complete instruction and the logic to read them by
position.
-/

namespace ByteMachine

structure Operands where
  bytes : List UInt8
deriving DecidableEq

namespace Operands

def byte (ops : Operands) (index : Nat) : Except Fault UInt8 :=
  match ops.bytes[index]? with
  | some byte => .ok byte
  | none => .error (.operandOutOfRange 0 .constant)

def register (ops : Operands) (index : Nat) : Except Fault Register := do
  let byte ← ops.byte index
  match Register.ofByte? byte with
  | some r => .ok r
  | none => .error (.operandOutOfRange byte .register)

def registerPair (ops : Operands) (index : Nat) : Except Fault RegisterPair := do
  let byte ← ops.byte index
  match RegisterPair.ofByte? byte with
  | some pair => .ok pair
  | none => .error (.operandOutOfRange byte .registerPair)

@[simp]
theorem byte_zero (b : UInt8) (rest : List UInt8) : byte ⟨b :: rest⟩ 0 = .ok b := rfl

@[simp]
theorem byte_one (a b : UInt8) (rest : List UInt8) : byte ⟨a :: b :: rest⟩ 1 = .ok b := rfl

theorem register_of_byte {ops : Operands} {index : Nat} {r : Register}
    (h : ops.byte index = .ok r.toByte) : ops.register index = .ok r := by
  simp [register, h, bind, Except.bind]

@[simp]
theorem register_zero (r : Register) (rest : List UInt8) :
    register ⟨r.toByte :: rest⟩ 0 = .ok r :=
  register_of_byte rfl

@[simp]
theorem register_one (b : UInt8) (r : Register) (rest : List UInt8) :
    register ⟨b :: r.toByte :: rest⟩ 1 = .ok r :=
  register_of_byte rfl

@[simp]
theorem registerPair_zero (p : RegisterPair) (rest : List UInt8) :
    registerPair ⟨p.toByte :: rest⟩ 0 = .ok p := by
  simp [registerPair, bind, Except.bind]

end Operands
end ByteMachine
