import ByteMachine.Command.Arguments

/-!
This module contains the assembler command as a program: reading and writing of real files.
-/

open ByteMachine.Command

def ByteMachine.Command.FileError.ofFailure : IO.Error → FileError
  | .noFileOrDirectory .. => .notFound
  | .inappropriateType _ 21 _ => .isDirectory
  | .inappropriateType .. => .notDirectory
  | .invalidArgument _ code details =>
    if code = 36 ∨ code = -36 then .nameTooLong else .other details
  | .permissionDenied .. => .other "Permission denied (os error 13)"
  | error => .other (toString error)

def ByteMachine.Command.attempt (action : IO α) : IO (Except FileError α) := do
  return (← action.toBaseIO).mapError FileError.ofFailure

def ByteMachine.Command.Report.display (report : Report) : IO UInt32 := do
  for line in report.stderr do
    IO.eprintln line
  IO.print report.stdout
  return UInt32.ofNat report.status

def ByteMachine.Command.readSource : Option String → IO (Except FileError (List UInt8))
  | some path => attempt (return (← IO.FS.readBinFile path).toList)
  | none => attempt do return (← (← IO.getStdin).readBinToEnd).toList

def main (arguments : List String) : IO UInt32 := do
  match Options.parse arguments with
  | .error report => report.display
  | .ok options =>
    match Job.ofInput options (← readSource options.input) with
    | .error report => report.display
    | .ok job =>
      match options.output with
      | none => job.printed.display
      | some path => (job.written (← attempt (IO.FS.writeFile path job.text))).display
