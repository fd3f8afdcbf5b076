import ByteMachine.Engine.Outcome
import ByteMachine.Image
import ByteMachine.InstructionSet

/-!
This module contains the engine: a machine with its instruction set, which consumes one byte of
memory per cycle.

With no instruction pending the byte at the program counter is an opcode; a byte that stands for
no instruction is reported and skipped. While an instruction is pending the byte is its next
operand. With the last operand, or with the opcode if there are none, the operands are validated
and the instruction runs. The byte a cycle consumes is stepped over afterwards, unless the
instruction set the program counter itself.
-/

namespace ByteMachine

@[ext]
structure Engine where
  machine : Machine
  instructions : InstructionSet
  pending : Option Pending := none

structure Reaction (α : Type) where
  result : α
  engine : Engine
  events : List Event := []
  log : List Log.Record := []

namespace Reaction

def after (r : Reaction α) (events : List Event) : Reaction α :=
  { r with events := events ++ r.events }

def andThen (r : Reaction α) (next : Engine → Reaction β) : Reaction β :=
  let s := next r.engine
  { s with events := r.events ++ s.events, log := r.log ++ s.log }

end Reaction

namespace Engine

def withInstructions (config : Config) (instructions : InstructionSet) : Engine where
  machine := .new config
  instructions := instructions

def new (config : Config) : Engine :=
  withInstructions config .standard

def config (e : Engine) : Config :=
  e.machine.config

def advance (e : Engine) : Reaction Unit :=
  let machine := e.machine.advance
  { result := (), engine := { e with machine }
    events := [.programCounterChanged machine.programCounter] }

def execute (e : Engine) (p : Pending) : Reaction Outcome :=
  let done := p.execute e.machine
  let settled := { e with machine := done.execution.machine, pending := none }
  let moved := if done.execution.advanceSuppressed then ⟨(), settled, [], []⟩ else settled.advance
  { result := p.outcome done.value, engine := moved.engine
    events := done.events ++ p.closing done.value :: moved.events
    log := [p.record done.value] }

def proceed (e : Engine) (p : Pending) (waiting : Outcome) : Reaction Outcome :=
  if p.isReady then
    e.execute p
  else
    { { e with pending := some p }.advance with result := waiting }

def fetch (e : Engine) : Reaction Outcome :=
  let position := e.machine.programCounter
  let byte := e.machine.memory.get position
  match e.instructions.lookup byte with
  | none =>
    let text := s!"{Number.hex position}: invalid byte {Number.hex byte}"
    let skipped := e.advance.after [.invalidByteParsed byte position]
    { skipped with result := .invalidByte byte, log := [⟨.trace, text⟩] }
  | some instruction =>
    let p : Pending := { opcode := byte, position, instruction }
    (e.proceed p (.fetched byte)).after [.instructionParseBegun byte position]

def collect (e : Engine) (p : Pending) : Reaction Outcome :=
  let position := e.machine.programCounter
  let byte := e.machine.memory.get position
  match p.nextKind with
  | none => e.execute p
  | some kind =>
    (e.proceed (p.collect byte) (.operandCollected byte)).after
      [.parameterParsed kind byte position]

def cycle (e : Engine) : Reaction Outcome :=
  match e.pending with
  | none => e.fetch
  | some p => e.collect p

def missing (e : Engine) : Nat :=
  match e.pending with
  | none => 0
  | some p => p.missing

def finish : Nat → Reaction Outcome → Reaction Outcome
  | 0, r => r
  | n + 1, r => if r.result.completes then r else finish n (r.andThen cycle)

/--
Cycles until an instruction completes or a byte is skipped. After the first cycle one more is
needed for each operand byte that is missing.
-/
def step (e : Engine) : Reaction Outcome :=
  let first := e.cycle
  finish first.engine.missing first

namespace run

def go : Nat → Engine → Nat → Array Event → Array Log.Record → Reaction Nat
  | 0, e, count, events, log => ⟨count, e, events.toList, log.toList⟩
  | n + 1, e, count, events, log =>
    let r := e.cycle
    go n r.engine (if r.result.completes then count + 1 else count) (events ++ r.events)
      (log ++ r.log)

theorem go_eq (n : Nat) (e : Engine) (count : Nat) (events : Array Event)
    (log : Array Log.Record) :
    go n e count events log =
      let r := go n e 0 #[] #[]
      ⟨count + r.result, r.engine, events.toList ++ r.events, log.toList ++ r.log⟩ := by
  induction n generalizing e count events log with
  | zero => simp [go]
  | succ n ih =>
    rw [go, ih, go]
    conv => rhs; rw [ih]
    split <;> simp [Nat.add_assoc]

end run

def run (n : Nat) (e : Engine) : Reaction Nat :=
  run.go n e 0 #[] #[]

@[simp]
theorem run_zero (e : Engine) : e.run 0 = ⟨0, e, [], []⟩ := rfl

theorem run_succ (n : Nat) (e : Engine) :
    e.run (n + 1) =
      let r := e.cycle.andThen (run n)
      { r with result := (if e.cycle.result.completes then 1 else 0) + r.result } := by
  rw [run, run.go, run.go_eq]
  simp [run, Reaction.andThen]

def load (program : List UInt8) (e : Engine) : Reaction Nat :=
  let copied := program.take 256
  let changes := (Memory.addresses.zip copied).map fun (a, v) => Event.memoryChanged a v
  { result := copied.length
    engine := { e with machine := e.machine.reset.copyProgram program, pending := none }
    events := .reset :: changes ++ [.programCounterChanged 0]
    log := [⟨.debug, s!"loaded {copied.length} bytes"⟩] }

def reset (e : Engine) : Reaction Unit where
  result := ()
  engine := { e with machine := e.machine.reset, pending := none }
  events := [.reset]

def setRegister (r : Register) (value : UInt8) (e : Engine) : Reaction Unit where
  result := ()
  engine := { e with machine := e.machine.setRegister r value }
  events := [.registerChanged r value]

def setMemory (address value : UInt8) (e : Engine) : Reaction Unit where
  result := ()
  engine := { e with machine := e.machine.setMemory address value }
  events := [.memoryChanged address value]

def setVideoMemory (address value : UInt8) (e : Engine) : Reaction Unit where
  result := ()
  engine := { e with machine := e.machine.setVideoMemory address value }
  events := [.videoMemoryChanged address value]

def setProgramCounter (value : UInt8) (e : Engine) : Reaction Unit where
  result := ()
  engine := { e with machine := { e.machine with programCounter := value }, pending := none }
  events := [.programCounterChanged value]

def loadImage (image : Image) (e : Engine) : Reaction Unit :=
  let cells := (Memory.addresses.zip image.videoMemory.toList).filter fun (_, v) => v ≠ 0
  let loaded := { e.load image.memory.toList with result := () }
  cells.foldl (fun r (a, v) => r.andThen (setVideoMemory a v)) loaded

def image (e : Engine) (filename : Option String) : Image where
  filename := filename
  memory := e.machine.memory
  videoMemory := e.machine.videoMemory

end Engine
end ByteMachine
