import ByteMachine.Assembly.Cursor
import ByteMachine.Assembly.Form
import ByteMachine.InstructionSet

/-!
This module contains the logic to encode one instruction. The operand bytes follow the operand
kinds that the instruction set gives the opcode.
-/

namespace ByteMachine
namespace Assembly

structure Encoding where
  /-- The opcode and its operand bytes; those of labels are zero. -/
  bytes : List UInt8
  /-- Which bytes are to hold the addresses of which labels. -/
  references : List (Nat × String)
deriving DecidableEq

namespace Encoding

def add (e : Encoding) (operand : Operand) : Encoding where
  bytes := e.bytes ++ [operand.byte]
  references :=
    match operand with
    | .label name => e.references ++ [(e.bytes.length, name)]
    | _ => e.references

def take (e : Encoding) (cursor : Cursor) : OperandKind → Except Problem (Encoding × Cursor)
  | .constant => do
    let (operand, cursor) ← cursor.expect .constant
    return (e.add operand, cursor)
  | .memoryAddress => do
    let (operand, cursor) ← cursor.expect .memory
    return (e.add operand, cursor)
  | .register => do
    let indirect := cursor.peek? = some .registerMemory
    let (operand, cursor) ← cursor.expect (if indirect then .registerMemory else .register)
    return (e.add operand, cursor)
  | .registerPair => do
    let (source, cursor) ← cursor.expectRegister
    let (destination, cursor) ← cursor.expectRegister
    return ({ e with bytes := e.bytes ++ [RegisterPair.toByte ⟨source, destination⟩] }, cursor)

def takeAll (e : Encoding) (cursor : Cursor) :
    List OperandKind → Except Problem (Encoding × Cursor)
  | [] => .ok (e, cursor)
  | kind :: kinds => do
    let (e, cursor) ← e.take cursor kind
    e.takeAll cursor kinds

end Encoding

def encodeForm (set : InstructionSet) (op : Opcode) (cursor : Cursor) :
    Except Problem Encoding :=
  match set.lookup op.byte with
  | none => .error cursor.mismatch
  | some instruction => do
    let (encoding, cursor) ← Encoding.takeAll ⟨[op.byte], []⟩ cursor instruction.operands
    cursor.finish
    return encoding

/--
Encodes an instruction; the mnemonic is in upper case.
-/
def encode (set : InstructionSet) (mnemonic : String) (operands : List Operand) :
    Except Problem Encoding :=
  let cursor := Cursor.new mnemonic operands
  if Opcode.forms mnemonic = [] then
    .error (.unknownMnemonic mnemonic)
  else
    match Opcode.select? mnemonic (operands.map Operand.kind) with
    | some op => encodeForm set op cursor
    | none => .error cursor.mismatch

end Assembly
end ByteMachine
