import ByteMachine.Instruction
import ByteMachine.Opcode

/-!
This module contains what the standard instructions do.

Results are taken modulo 256. Operands are read when they are needed: a conditional jump that is
not taken does not read its target.
-/

namespace ByteMachine
namespace Routine

def addCarry (a b : UInt8) : UInt8 × Bool :=
  (a + b, 255 < a.toNat + b.toNat)

def subCarry (a b : UInt8) : UInt8 × Bool :=
  (a - b, a < b)

def mulCarry (a b : UInt8) : UInt8 × Bool :=
  (a * b, 255 < a.toNat * b.toNat)

def pairWithCarry (operation : UInt8 → UInt8 → UInt8 × Bool) (ops : Operands) :
    Routine Unit := do
  let pair ← ops.registerPair 0
  let (value, carry) := operation (← register pair.destination) (← register pair.source)
  setRegister pair.destination value
  setCarry carry

def constWithCarry (operation : UInt8 → UInt8 → UInt8 × Bool) (ops : Operands) :
    Routine Unit := do
  let constant ← ops.byte 0
  let r ← ops.register 1
  let (value, carry) := operation (← register r) constant
  setRegister r value
  setCarry carry

def pair (operation : UInt8 → UInt8 → UInt8) (ops : Operands) : Routine Unit := do
  let pair ← ops.registerPair 0
  setRegister pair.destination
    (operation (← register pair.destination) (← register pair.source))

def pairNonzero (operation : UInt8 → UInt8 → UInt8) (ops : Operands) : Routine Unit := do
  let pair ← ops.registerPair 0
  let destination ← register pair.destination
  let source ← register pair.source
  if source = 0 then
    fail .divideByZero
  else
    setRegister pair.destination (operation destination source)

def unaryWithCarry (operation : UInt8 → UInt8 × Bool) (ops : Operands) : Routine Unit := do
  let r ← ops.register 0
  let (value, carry) := operation (← register r)
  setRegister r value
  setCarry carry

def unary (operation : UInt8 → UInt8) (ops : Operands) : Routine Unit := do
  let r ← ops.register 0
  setRegister r (operation (← register r))

def jumpWhen (condition : Bool) (target : Nat) (ops : Operands) : Routine Unit := do
  if condition then
    jump (← ops.byte target)

end Routine

namespace Opcode

def execute (op : Opcode) (ops : Operands) : Routine Unit :=
  match op with
  | .nop => pure ()
  | .movConstReg => do
    let value ← ops.byte 0
    Routine.setRegister (← ops.register 1) value
  | .movMemReg => do
    let value ← Routine.memory (← ops.byte 0)
    Routine.setRegister (← ops.register 1) value
  | .movRegMem => do
    let value ← Routine.register (← ops.register 0)
    Routine.writeMemory (← ops.byte 1) value
  | .movRegReg => do
    let pair ← ops.registerPair 0
    Routine.setRegister pair.destination (← Routine.register pair.source)
  | .movConstMem => do
    let address ← ops.byte 1
    Routine.writeMemory address (← ops.byte 0)
  | .loadIndirect => do
    let value ← Routine.memory (← Routine.register (← ops.register 0))
    Routine.setRegister (← ops.register 1) value
  | .storeIndirect => do
    let value ← Routine.register (← ops.register 0)
    Routine.writeMemory (← Routine.register (← ops.register 1)) value
  | .add => Routine.pairWithCarry Routine.addCarry ops
  | .addConst => Routine.constWithCarry Routine.addCarry ops
  | .sub => Routine.pairWithCarry Routine.subCarry ops
  | .subConst => Routine.constWithCarry Routine.subCarry ops
  | .mul => Routine.pairWithCarry Routine.mulCarry ops
  | .div => Routine.pairNonzero (· / ·) ops
  | .mod => Routine.pairNonzero (· % ·) ops
  | .inc => Routine.unaryWithCarry (Routine.addCarry · 1) ops
  | .dec => Routine.unaryWithCarry (Routine.subCarry · 1) ops
  | .and => Routine.pair (· &&& ·) ops
  | .or => Routine.pair (· ||| ·) ops
  | .xor => Routine.pair (· ^^^ ·) ops
  | .not => Routine.unary (~~~ ·) ops
  | .shl => Routine.unaryWithCarry (fun v => (v <<< 1, v &&& 0x80 != 0)) ops
  | .shr => Routine.unaryWithCarry (fun v => (v >>> 1, v &&& 0x01 != 0)) ops
  | .jmp => Routine.jumpWhen true 0 ops
  | .jmpCarry => do Routine.jumpWhen (← Routine.carry) 0 ops
  | .jmpNoCarry => do Routine.jumpWhen (!(← Routine.carry)) 0 ops
  | .jmpZero => do
    Routine.jumpWhen ((← Routine.register (← ops.register 0)) == 0) 1 ops
  | .jmpNotZero => do
    Routine.jumpWhen ((← Routine.register (← ops.register 0)) != 0) 1 ops
  | .call => do Routine.call (← ops.byte 0)
  | .ret => Routine.ret
  | .clearCarry => Routine.setCarry false
  | .setCarry => Routine.setCarry true
  | .print => do
    let value ← Routine.register (← ops.register 0)
    Routine.print (toString value.toNat)
  | .printChar => do
    let value ← Routine.register (← ops.register 0)
    Routine.print (String.singleton (Char.ofNat value.toNat))
  | .videoStore => do
    let value ← Routine.register (← ops.register 0)
    Routine.writeVideoMemory (← ops.byte 1) value
  | .selectBank => do Routine.selectBank (← ops.byte 0)
  | .selectPalette => do Routine.selectPalette (← ops.byte 0)

def instruction (op : Opcode) : Instruction where
  name := op.name
  description := op.description
  operands := op.operands
  execute := op.execute

end Opcode
end ByteMachine
