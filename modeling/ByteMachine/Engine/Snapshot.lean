import ByteMachine.Engine

/-!
This module contains snapshots: all of an engine's state that the host can see.
-/

namespace ByteMachine

inductive Phase where
  | idle
  | collecting
deriving DecidableEq

structure PendingSnapshot where
  opcode : UInt8
  name : String
  position : UInt8
  required : Nat
  collected : List UInt8
deriving DecidableEq

structure Snapshot where
  memory : List UInt8
  videoMemory : List UInt8
  registers : List UInt8
  programCounter : UInt8
  carry : Bool
  /-- The return addresses, the oldest first. -/
  callStack : List UInt8
  bank : UInt8
  palette : UInt8
  phase : Phase
  pending : Option PendingSnapshot
deriving DecidableEq

def Pending.snapshot (p : Pending) : PendingSnapshot where
  opcode := p.opcode
  name := p.instruction.name
  position := p.position
  required := p.required
  collected := p.collected

namespace Engine

def phase (e : Engine) : Phase :=
  match e.pending with
  | none => .idle
  | some _ => .collecting

def snapshot (e : Engine) : Snapshot where
  memory := e.machine.memory.toList
  videoMemory := e.machine.videoMemory.toList
  registers := e.machine.registers.toList
  programCounter := e.machine.programCounter
  carry := e.machine.carry
  callStack := e.machine.callStack.frames
  bank := e.machine.bank.current
  palette := e.machine.palette.current
  phase := e.phase
  pending := e.pending.map Pending.snapshot

end Engine
end ByteMachine
