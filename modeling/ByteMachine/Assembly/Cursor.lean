import ByteMachine.Assembly.Operand

/-!
This module contains a cursor over the operands of one instruction.
-/

namespace ByteMachine
namespace Assembly

structure Cursor where
  mnemonic : String
  operands : List Operand
  rest : List Operand
deriving DecidableEq

namespace Cursor

def new (mnemonic : String) (operands : List Operand) : Cursor :=
  ⟨mnemonic, operands, operands⟩

def peek? (c : Cursor) : Option SourceKind :=
  c.rest.head?.map Operand.kind

def mismatch (c : Cursor) : Problem :=
  .invalidOperands c.mnemonic (Operand.describe c.operands)

def expect (c : Cursor) (kind : SourceKind) : Except Problem (Operand × Cursor) :=
  match c.rest with
  | [] => .error c.mismatch
  | operand :: rest =>
    if operand.kind = kind then .ok (operand, { c with rest }) else .error c.mismatch

def expectRegister (c : Cursor) : Except Problem (Register × Cursor) :=
  match c.rest with
  | .register r :: rest => .ok (r, { c with rest })
  | _ => .error c.mismatch

def finish (c : Cursor) : Except Problem Unit :=
  if c.rest = [] then .ok () else .error c.mismatch

end Cursor
end Assembly
end ByteMachine
