import ByteMachine.Assembly.Error
import ByteMachine.Register
import ByteMachine.Text.Number

/-!
This module contains the operands of a source line and the logic to read one from a token.
-/

namespace ByteMachine
namespace Assembly

inductive SourceKind where
  | constant
  | register
  /-- The memory cell whose address is in a register. -/
  | registerMemory
  | memory
deriving DecidableEq

namespace SourceKind

def label : SourceKind → String
  | .constant => "constant"
  | .register => "register"
  | .registerMemory => "register memory"
  | .memory => "memory"

def name : SourceKind → String
  | .constant => "Constant"
  | .register => "Register"
  | .registerMemory => "RegisterMemory"
  | .memory => "Memory"

def all : List SourceKind :=
  [.constant, .register, .registerMemory, .memory]

end SourceKind

inductive Operand where
  | constant (value : UInt8)
  | register (r : Register)
  | registerMemory (r : Register)
  | memory (address : UInt8)
  | label (name : String)
deriving DecidableEq

namespace Operand

def kind : Operand → SourceKind
  | .constant _ => .constant
  | .register _ => .register
  | .registerMemory _ => .registerMemory
  | .memory _ => .memory
  | .label _ => .memory

/--
The byte an operand is encoded as; a label is zero until the program is linked.
-/
def byte : Operand → UInt8
  | .constant value => value
  | .register r => r.toByte
  | .registerMemory r => r.toByte
  | .memory address => address
  | .label _ => 0

def describe (operands : List Operand) : String :=
  if operands = [] then "none" else ", ".intercalate (operands.map (·.kind.label))

end Operand

def isLabel : List Char → Bool
  | [] => false
  | c :: rest => (c.isAlpha || c = '_') && rest.all fun d => d.isAlphanum || d = '_'

def parseLabel (token name : List Char) : Except Problem String :=
  if isLabel name then
    .ok (String.ofList name)
  else
    .error (.malformedOperand (String.ofList token))

def parseLiteral (token digits : List Char) : Except Problem UInt8 :=
  match Number.byte? digits with
  | some value => .ok value
  | none => .error (.invalidLiteral (String.ofList token))

def parseRegister (token digits : List Char) : Except Problem Register :=
  match Number.read? 10 digits with
  | some n =>
    if h : n < 8 then .ok ⟨n, h⟩ else .error (.registerOutOfRange (String.ofList token))
  | none => .error (.malformedOperand (String.ofList token))

def parseOperand (token : List Char) : Except Problem Operand :=
  match token with
  | ':' :: name => (parseLabel token name).map .label
  | _ =>
    match token.map Char.toUpper with
    | 'N' :: 'U' :: 'M' :: digits => (parseLiteral token digits).map .constant
    | 'R' :: 'M' :: digits => (parseRegister token digits).map .registerMemory
    | 'R' :: digits => (parseRegister token digits).map .register
    | 'M' :: digits => (parseLiteral token digits).map .memory
    | _ => .error (.malformedOperand (String.ofList token))

end Assembly
end ByteMachine
