import ByteMachine.Assembly.Program
import ByteMachine.Command.Disk
import ByteMachine.Command.Options
import ByteMachine.Image.LongForm
import ByteMachine.Image.ShortForm
import ByteMachine.Text.Utf8

/-!
This module contains the work of the assembler command: it reads a source, assembles it, and writes
the program in one of three forms.
-/

namespace ByteMachine
namespace Command

structure Report where
  status : Nat
  stdout : String := ""
  stderr : List String := []
deriving DecidableEq

namespace Report

def after (r : Report) (stderr : List String) : Report :=
  { r with stderr := stderr ++ r.stderr }

def failure (message : String) : Report where
  status := 1
  stderr := [message]

end Report

def formatArray (bytes : List UInt8) : String :=
  "[" ++ ", ".intercalate (bytes.map fun b => toString b.toNat) ++ "]"

def render (format : Format) (bytes : List UInt8) (name : Option String) : String :=
  let image := { Image.ofProgram bytes with filename := name }
  match format with
  | .array => formatArray bytes ++ "\n"
  | .state => LongForm.encode image
  | .url => ShortForm.encode image ++ "\n"

def stem (path : String) : Option String :=
  match ((Disk.names path).filter (· ≠ ".")).getLast? with
  | none => none
  | some ".." => none
  | some name =>
    let reversed := name.toList.reverse
    match (reversed.dropWhile (· ≠ '.')).tail with
    | [] => some name
    | kept => some (String.ofList kept.reverse)

def listing (program : Assembly.Program) (lines : List (List Char)) : List String :=
  program.chunks.map fun chunk =>
    let bytes := " ".intercalate (chunk.bytes.map Number.hex)
    let padding := String.ofList (List.replicate (11 - bytes.length) ' ')
    let text := String.ofList (Text.trim (lines.getD (chunk.line - 1) []))
    s!"{Number.hexOfNat chunk.offset}: {bytes}{padding} {text}"

def labels (program : Assembly.Program) : List String :=
  program.symbols.sorted.map fun (name, symbol) =>
    s!":{name} = 0x{Number.hexOfNat symbol.offset}"

def shown (options : Options) (records : List Log.Record) : List String :=
  (records.filter (·.isShownAt (if options.verbose then .debug else .warn))).map fun record =>
    s!"[{record.level.name}] {record.text}"

structure Job where
  options : Options
  bytes : List UInt8
  stderr : List String
deriving DecidableEq

namespace Job

def ofSource (options : Options) (source : String) : Except Report Job := do
  let fail (error : Assembly.Error) : Report := .failure error.message
  let program ← (Assembly.Program.ofSource .standard source).mapError fail
  let rows := listing program (Text.lines source.toList) ++ labels program
  let heard := shown options (rows.map (⟨.debug, ·⟩) ++ program.linkLog)
  let bytes ← program.link.mapError fun error => (fail error).after heard
  return ⟨options, bytes, heard⟩

def ofInput (options : Options) (input : Except FileError (List UInt8)) : Except Report Job :=
  let text := input.bind fun bytes =>
    match Text.ofUtf8? bytes with
    | some text => .ok text
    | none => .error .notText
  match text with
  | .ok source => ofSource options source
  | .error error => .error (.failure s!"error: failed to read input: {error.message}")

def text (job : Job) : String :=
  let name := job.options.name.orElse fun _ => job.options.input.bind stem
  render job.options.emit job.bytes name

def written (job : Job) : Except FileError Unit → Report
  | .ok () =>
    let done := shown job.options [⟨.info, s!"assembled {job.bytes.length} bytes"⟩]
    { status := 0, stderr := job.stderr ++ done }
  | .error error =>
    (Report.failure s!"error: failed to write output: {error.message}").after job.stderr

def printed (job : Job) : Report :=
  { job.written (.ok ()) with stdout := job.text }

end Job

def perform (options : Options) (stdin : List UInt8) (disk : Disk) : Report × Disk :=
  match Job.ofInput options ((options.input.map disk.read).getD (.ok stdin)) with
  | .error report => (report, disk)
  | .ok job =>
    match options.output with
    | none => (job.printed, disk)
    | some path =>
      match disk.write path (Text.toUtf8 job.text) with
      | .ok disk => (job.written (.ok ()), disk)
      | .error error => (job.written (.error error), disk)

end Command
end ByteMachine
