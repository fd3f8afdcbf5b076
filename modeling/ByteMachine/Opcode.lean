import ByteMachine.OperandKind

/-!
This module contains the opcodes of the standard instruction set: their bytes, their names and
the operands that follow them.
-/

namespace ByteMachine

inductive Opcode where
  | nop
  | movConstReg
  | movMemReg
  | movRegMem
  | movRegReg
  | movConstMem
  | loadIndirect
  | storeIndirect
  | add
  | addConst
  | sub
  | subConst
  | mul
  | div
  | mod
  | inc
  | dec
  | and
  | or
  | xor
  | not
  | shl
  | shr
  | jmp
  | jmpCarry
  | jmpNoCarry
  | jmpZero
  | jmpNotZero
  | call
  | ret
  | clearCarry
  | setCarry
  | print
  | printChar
  | videoStore
  | selectBank
  | selectPalette
deriving DecidableEq

namespace Opcode

def all : List Opcode :=
  [.nop, .movConstReg, .movMemReg, .movRegMem, .movRegReg, .movConstMem, .loadIndirect,
    .storeIndirect, .add, .addConst, .sub, .subConst, .mul, .div, .mod, .inc, .dec, .and, .or,
    .xor, .not, .shl, .shr, .jmp, .jmpCarry, .jmpNoCarry, .jmpZero, .jmpNotZero, .call, .ret,
    .clearCarry, .setCarry, .print, .printChar, .videoStore, .selectBank, .selectPalette]

def byte : Opcode → UInt8
  | .nop => 0x00
  | .movConstReg => 0x01
  | .movMemReg => 0x02
  | .movRegMem => 0x03
  | .movRegReg => 0x04
  | .movConstMem => 0x05
  | .loadIndirect => 0x06
  | .storeIndirect => 0x07
  | .add => 0x10
  | .addConst => 0x11
  | .sub => 0x12
  | .subConst => 0x13
  | .mul => 0x14
  | .div => 0x15
  | .mod => 0x16
  | .inc => 0x17
  | .dec => 0x18
  | .and => 0x19
  | .or => 0x1A
  | .xor => 0x1B
  | .not => 0x1C
  | .shl => 0x1D
  | .shr => 0x1E
  | .jmp => 0x20
  | .jmpCarry => 0x21
  | .jmpNoCarry => 0x22
  | .jmpZero => 0x23
  | .jmpNotZero => 0x24
  | .call => 0x25
  | .ret => 0x26
  | .clearCarry => 0x30
  | .setCarry => 0x31
  | .print => 0x40
  | .printChar => 0x41
  | .videoStore => 0x50
  | .selectBank => 0x51
  | .selectPalette => 0x52

def ofByte? (byte : UInt8) : Option Opcode :=
  all.find? (·.byte == byte)

def name : Opcode → String
  | .nop => "NOP"
  | .movConstReg => "MOV_CONST_REG"
  | .movMemReg => "MOV_MEM_REG"
  | .movRegMem => "MOV_REG_MEM"
  | .movRegReg => "MOV_REG_REG"
  | .movConstMem => "MOV_CONST_MEM"
  | .loadIndirect => "LOAD_INDIRECT"
  | .storeIndirect => "STORE_INDIRECT"
  | .add => "ADD"
  | .addConst => "ADD_CONST"
  | .sub => "SUB"
  | .subConst => "SUB_CONST"
  | .mul => "MUL"
  | .div => "DIV"
  | .mod => "MOD"
  | .inc => "INC"
  | .dec => "DEC"
  | .and => "AND"
  | .or => "OR"
  | .xor => "XOR"
  | .not => "NOT"
  | .shl => "SHL"
  | .shr => "SHR"
  | .jmp => "JMP"
  | .jmpCarry => "JMP_CARRY"
  | .jmpNoCarry => "JMP_NO_CARRY"
  | .jmpZero => "JMP_ZERO"
  | .jmpNotZero => "JMP_NOT_ZERO"
  | .call => "CALL"
  | .ret => "RET"
  | .clearCarry => "CLEAR_CARRY"
  | .setCarry => "SET_CARRY"
  | .print => "PRINT"
  | .printChar => "PRINT_CHAR"
  | .videoStore => "VIDEO_STORE"
  | .selectBank => "SELECT_BANK"
  | .selectPalette => "SELECT_PALETTE"

def description : Opcode → String
  | .nop => "Does nothing."
  | .movConstReg => "Loads a constant into a register."
  | .movMemReg => "Loads a memory cell into a register."
  | .movRegMem => "Stores a register into a memory cell."
  | .movRegReg => "Copies one register into another."
  | .movConstMem => "Stores a constant into a memory cell."
  | .loadIndirect => "Loads the cell addressed by the first register into the second."
  | .storeIndirect => "Stores the first register into the cell addressed by the second."
  | .add => "Adds source to destination."
  | .addConst => "Adds a constant to a register."
  | .sub => "Subtracts source from destination."
  | .subConst => "Subtracts a constant from a register."
  | .mul => "Multiplies destination by source."
  | .div => "Divides destination by source."
  | .mod => "Remainder of destination divided by source."
  | .inc => "Increments a register."
  | .dec => "Decrements a register."
  | .and => "Bitwise AND into destination."
  | .or => "Bitwise OR into destination."
  | .xor => "Bitwise XOR into destination."
  | .not => "Inverts every bit of a register."
  | .shl => "Shifts a register left; bit 7 moves to carry."
  | .shr => "Shifts a register right; bit 0 moves to carry."
  | .jmp => "Jumps to an address."
  | .jmpCarry => "Jumps when carry is set."
  | .jmpNoCarry => "Jumps when carry is clear."
  | .jmpZero => "Jumps when a register is zero."
  | .jmpNotZero => "Jumps when a register is nonzero."
  | .call => "Pushes the return address and jumps."
  | .ret => "Returns to the last pushed address."
  | .clearCarry => "Clears the carry flag."
  | .setCarry => "Sets the carry flag."
  | .print => "Prints a register as a decimal number."
  | .printChar => "Prints a register as a character."
  | .videoStore => "Stores a register into video memory."
  | .selectBank => "Selects the active bank."
  | .selectPalette => "Selects the color palette."

def operands : Opcode → List OperandKind
  | .nop | .ret | .clearCarry | .setCarry => []
  | .movConstReg | .addConst | .subConst => [.constant, .register]
  | .movMemReg => [.memoryAddress, .register]
  | .movRegMem | .jmpZero | .jmpNotZero | .videoStore => [.register, .memoryAddress]
  | .movConstMem => [.constant, .memoryAddress]
  | .loadIndirect | .storeIndirect => [.register, .register]
  | .movRegReg | .add | .sub | .mul | .div | .mod | .and | .or | .xor => [.registerPair]
  | .inc | .dec | .not | .shl | .shr | .print | .printChar => [.register]
  | .jmp | .jmpCarry | .jmpNoCarry | .call => [.memoryAddress]
  | .selectBank | .selectPalette => [.constant]

theorem mem_all (op : Opcode) : op ∈ all := by
  cases op <;> decide

@[simp]
theorem ofByte?_byte (op : Opcode) : ofByte? op.byte = some op := by
  cases op <;> decide

theorem byte_of_ofByte? {b : UInt8} {op : Opcode} (h : ofByte? b = some op) : op.byte = b := by
  simpa using List.find?_some h

theorem byte_injective {a b : Opcode} (h : a.byte = b.byte) : a = b := by
  have := congrArg ofByte? h
  simpa using this

end Opcode
end ByteMachine
