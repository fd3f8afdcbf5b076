import ByteMachine.Assembly.Operand
import ByteMachine.Opcode

/-!
This module contains the forms of the mnemonics. Each opcode is one form: a mnemonic together with
the kinds of its operands.
-/

namespace ByteMachine
namespace Opcode

open Assembly (SourceKind)

def mnemonic : Opcode → String
  | .nop => "NOP"
  | .movConstReg | .movMemReg | .movRegMem | .movRegReg | .movConstMem => "MOV"
  | .loadIndirect | .storeIndirect => "MOV"
  | .add | .addConst => "ADD"
  | .sub | .subConst => "SUB"
  | .mul => "MUL"
  | .div => "DIV"
  | .mod => "MOD"
  | .inc => "INC"
  | .dec => "DEC"
  | .and => "AND"
  | .or => "OR"
  | .xor => "XOR"
  | .not => "NOT"
  | .shl => "SHL"
  | .shr => "SHR"
  | .jmp => "JMP"
  | .jmpCarry => "JC"
  | .jmpNoCarry => "JNC"
  | .jmpZero => "JZ"
  | .jmpNotZero => "JNZ"
  | .call => "CALL"
  | .ret => "RET"
  | .clearCarry => "CLC"
  | .setCarry => "SEC"
  | .print => "PRINT"
  | .printChar => "PRINTC"
  | .videoStore => "VSTORE"
  | .selectBank => "BANK"
  | .selectPalette => "PALETTE"

def sources : Opcode → List SourceKind
  | .nop | .ret | .clearCarry | .setCarry => []
  | .movConstReg | .addConst | .subConst => [.constant, .register]
  | .movMemReg => [.memory, .register]
  | .movRegMem | .jmpZero | .jmpNotZero | .videoStore => [.register, .memory]
  | .movRegReg | .add | .sub | .mul | .div | .mod | .and | .or | .xor => [.register, .register]
  | .movConstMem => [.constant, .memory]
  | .loadIndirect => [.registerMemory, .register]
  | .storeIndirect => [.register, .registerMemory]
  | .inc | .dec | .not | .shl | .shr | .print | .printChar => [.register]
  | .jmp | .jmpCarry | .jmpNoCarry | .call => [.memory]
  | .selectBank | .selectPalette => [.constant]

def forms (mnemonic : String) : List Opcode :=
  all.filter (·.mnemonic = mnemonic)

def select? (mnemonic : String) (kinds : List SourceKind) : Option Opcode :=
  (forms mnemonic).find? (·.sources = kinds)

@[simp]
theorem select?_mnemonic_sources (op : Opcode) : select? op.mnemonic op.sources = some op := by
  cases op <;> decide

end Opcode
end ByteMachine
