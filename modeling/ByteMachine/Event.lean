import ByteMachine.Fault

/-!
This module contains the events that observers of the machine can see.
-/

namespace ByteMachine

inductive Event where
  | memoryChanged (address value : UInt8)
  | videoMemoryChanged (address value : UInt8)
  | registerChanged (register : Register) (value : UInt8)
  | programCounterChanged (value : UInt8)
  | carryChanged (value : Bool)
  | bankSelected (bank : UInt8)
  | paletteSelected (palette : UInt8)
  | instructionParseBegun (opcode position : UInt8)
  | parameterParsed (kind : OperandKind) (byte position : UInt8)
  | instructionExecuted (opcode : UInt8)
  | invalidByteParsed (byte position : UInt8)
  | printRequested (text : String)
  | reset
  /-- The instruction whose opcode stands at `position` was aborted. -/
  | error (opcode position : UInt8) (fault : Fault)
deriving DecidableEq

inductive EventKind where
  | memoryChanged
  | videoMemoryChanged
  | registerChanged
  | programCounterChanged
  | carryChanged
  | bankSelected
  | paletteSelected
  | instructionParseBegun
  | parameterParsed
  | instructionExecuted
  | invalidByteParsed
  | printRequested
  | reset
  | error
deriving DecidableEq

namespace EventKind

def all : List EventKind :=
  [.memoryChanged, .videoMemoryChanged, .registerChanged, .programCounterChanged, .carryChanged,
    .bankSelected, .paletteSelected, .instructionParseBegun, .parameterParsed,
    .instructionExecuted, .invalidByteParsed, .printRequested, .reset, .error]

def name : EventKind → String
  | .memoryChanged => "MemoryChanged"
  | .videoMemoryChanged => "VideoMemoryChanged"
  | .registerChanged => "RegisterChanged"
  | .programCounterChanged => "ProgramCounterChanged"
  | .carryChanged => "CarryChanged"
  | .bankSelected => "BankSelected"
  | .paletteSelected => "PaletteSelected"
  | .instructionParseBegun => "InstructionParseBegun"
  | .parameterParsed => "ParameterParsed"
  | .instructionExecuted => "InstructionExecuted"
  | .invalidByteParsed => "InvalidByteParsed"
  | .printRequested => "PrintRequested"
  | .reset => "Reset"
  | .error => "Error"

theorem mem_all (kind : EventKind) : kind ∈ all := by
  cases kind <;> decide

theorem nodup_all : all.Nodup := by
  decide

end EventKind

def Event.kind : Event → EventKind
  | .memoryChanged .. => .memoryChanged
  | .videoMemoryChanged .. => .videoMemoryChanged
  | .registerChanged .. => .registerChanged
  | .programCounterChanged .. => .programCounterChanged
  | .carryChanged .. => .carryChanged
  | .bankSelected .. => .bankSelected
  | .paletteSelected .. => .paletteSelected
  | .instructionParseBegun .. => .instructionParseBegun
  | .parameterParsed .. => .parameterParsed
  | .instructionExecuted .. => .instructionExecuted
  | .invalidByteParsed .. => .invalidByteParsed
  | .printRequested .. => .printRequested
  | .reset => .reset
  | .error .. => .error

end ByteMachine
