import ByteMachine.Command.Arguments

/-!
This module contains the assembler command from its arguments on.
-/

namespace ByteMachine
namespace Command

def run (arguments : List String) (stdin : List UInt8) (disk : Disk) : Report × Disk :=
  match Options.parse arguments with
  | .error report => (report, disk)
  | .ok options => perform options stdin disk

end Command
end ByteMachine
