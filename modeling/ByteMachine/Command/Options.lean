/-!
This module contains the options of the assembler command.
-/

namespace ByteMachine
namespace Command

inductive Format where
  | array
  | state
  | url
deriving DecidableEq

structure Options where
  /-- The file to read; the standard input if none is given. -/
  input : Option String := none
  emit : Format := .array
  name : Option String := none
  /-- The file to write; the standard output if none is given. -/
  output : Option String := none
  verbose : Bool := false
deriving DecidableEq

end Command
end ByteMachine
