import ByteMachine.Register

/-!
This module contains the kinds of operand bytes that may follow an opcode.
-/

namespace ByteMachine

inductive OperandKind where
  | constant
  | register
  | memoryAddress
  | registerPair
deriving DecidableEq

namespace OperandKind

def accepts (kind : OperandKind) (byte : UInt8) : Bool :=
  match kind with
  | .constant => true
  | .register => (Register.ofByte? byte).isSome
  | .memoryAddress => true
  | .registerPair => (RegisterPair.ofByte? byte).isSome

def label : OperandKind → String
  | .constant => "constant"
  | .register => "register"
  | .memoryAddress => "memory address"
  | .registerPair => "register pair"

def name : OperandKind → String
  | .constant => "Constant"
  | .register => "Register"
  | .memoryAddress => "MemoryAddress"
  | .registerPair => "RegisterPair"

def all : List OperandKind :=
  [.constant, .register, .memoryAddress, .registerPair]

@[simp]
theorem accepts_constant (byte : UInt8) : constant.accepts byte := rfl

@[simp]
theorem accepts_memoryAddress (byte : UInt8) : memoryAddress.accepts byte := rfl

theorem accepts_register_iff {byte : UInt8} :
    register.accepts byte ↔ ∃ r : Register, byte = r.toByte := by
  simp only [accepts, Option.isSome_iff_exists]
  constructor
  . rintro ⟨r, h⟩
    exact ⟨r, (Register.toByte_of_ofByte? h).symm⟩
  . rintro ⟨r, rfl⟩
    exact ⟨r, Register.ofByte?_toByte r⟩

theorem accepts_registerPair_iff {byte : UInt8} :
    registerPair.accepts byte ↔ ∃ p : RegisterPair, byte = p.toByte := by
  simp only [accepts, Option.isSome_iff_exists]
  constructor
  . rintro ⟨p, h⟩
    exact ⟨p, (RegisterPair.toByte_of_ofByte? h).symm⟩
  . rintro ⟨p, rfl⟩
    exact ⟨p, RegisterPair.ofByte?_toByte p⟩

end OperandKind
end ByteMachine
