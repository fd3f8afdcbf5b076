import ByteMachine.Config
import ByteMachine.Memory
import ByteMachine.Machine.CallStack
import ByteMachine.Machine.Selector

/-!
This module contains the state of the machine. Everything here is silent; the operations that
tell an observer what they change are those of `Routine` and `Engine`.
-/

namespace ByteMachine

@[ext]
structure Machine where
  memory : Memory
  videoMemory : Memory
  registers : RegisterFile
  programCounter : UInt8
  carry : Bool
  callStack : CallStack
  bank : Selector
  palette : Selector
deriving DecidableEq

namespace Machine

def new (config : Config) : Machine where
  memory := .zero
  videoMemory := .zero
  registers := .zero
  programCounter := 0
  carry := false
  callStack := { depth := config.callStackDepth }
  bank := { count := config.bankCount }
  palette := { count := config.paletteCount }

def config (m : Machine) : Config where
  callStackDepth := m.callStack.depth
  bankCount := m.bank.count
  paletteCount := m.palette.count

def reset (m : Machine) : Machine where
  memory := .zero
  videoMemory := .zero
  registers := .zero
  programCounter := 0
  carry := false
  callStack := m.callStack.clear
  bank := { m.bank with current := 0 }
  palette := { m.palette with current := 0 }

def register (m : Machine) (r : Register) : UInt8 :=
  m.registers.get r

def setRegister (m : Machine) (r : Register) (value : UInt8) : Machine :=
  { m with registers := m.registers.set r value }

def setMemory (m : Machine) (address value : UInt8) : Machine :=
  { m with memory := m.memory.set address value }

def setVideoMemory (m : Machine) (address value : UInt8) : Machine :=
  { m with videoMemory := m.videoMemory.set address value }

def copyProgram (m : Machine) (program : List UInt8) : Machine :=
  { m with memory := m.memory.overlay program }

def advance (m : Machine) : Machine :=
  { m with programCounter := m.programCounter + 1 }

def pushReturn (m : Machine) (address : UInt8) : Except Fault Machine :=
  (m.callStack.push address).map fun callStack => { m with callStack }

def popReturn (m : Machine) : Except Fault (UInt8 × Machine) :=
  m.callStack.pop.map fun (address, callStack) => (address, { m with callStack })

def selectBank (m : Machine) (value : UInt8) : Except Fault Machine :=
  (m.bank.select value).map fun bank => { m with bank }

def selectPalette (m : Machine) (value : UInt8) : Except Fault Machine :=
  (m.palette.select value).map fun palette => { m with palette }

@[simp]
theorem config_new (config : Config) : (new config).config = config := rfl

theorem reset_eq (m : Machine) : m.reset = new m.config := rfl

@[simp]
theorem config_reset (m : Machine) : m.reset.config = m.config := rfl

@[simp]
theorem config_copyProgram (m : Machine) (program : List UInt8) :
    (m.copyProgram program).config = m.config := by
  rw [copyProgram, config, config]

theorem pushReturn_eq_ok_iff {m n : Machine} {address : UInt8} :
    m.pushReturn address = .ok n ↔
      ∃ callStack, m.callStack.push address = .ok callStack ∧ n = { m with callStack } := by
  simp only [pushReturn]
  cases m.callStack.push address with
  | ok callStack => simp [Except.map, eq_comm]
  | error fault => simp [Except.map]

theorem pushReturn_eq_error_iff {m : Machine} {address : UInt8} {fault : Fault} :
    m.pushReturn address = .error fault ↔
      m.callStack.depth ≤ m.callStack.frames.length ∧
        fault = .callStackOverflow m.callStack.depth := by
  simp only [pushReturn, CallStack.push, CallStack.frames, List.length_reverse]
  split
  . next room => simp [Except.map, Nat.not_le.2 room]
  . next full => simp [Except.map, Nat.le_of_not_lt full, eq_comm]

theorem popReturn_eq_ok_iff {m n : Machine} {address : UInt8} :
    m.popReturn = .ok (address, n) ↔
      ∃ callStack, m.callStack.pop = .ok (address, callStack) ∧ n = { m with callStack } := by
  simp only [popReturn]
  cases m.callStack.pop with
  | ok popped =>
    obtain ⟨target, callStack⟩ := popped
    simp only [Except.map, Except.ok.injEq, Prod.mk.injEq]
    constructor
    . rintro ⟨rfl, rfl⟩
      exact ⟨callStack, ⟨rfl, rfl⟩, rfl⟩
    . rintro ⟨_, ⟨rfl, rfl⟩, rfl⟩
      exact ⟨rfl, rfl⟩
  | error fault => simp [Except.map]

theorem popReturn_eq_error_iff {m : Machine} {fault : Fault} :
    m.popReturn = .error fault ↔ m.callStack.frames = [] ∧ fault = .callStackUnderflow := by
  simp only [popReturn, CallStack.pop, CallStack.frames, List.reverse_eq_nil_iff]
  cases m.callStack.entries with
  | nil => simp [Except.map, eq_comm]
  | cons address rest => simp [Except.map]

theorem selectBank_eq_ok_iff {m n : Machine} {value : UInt8} :
    m.selectBank value = .ok n ↔
      value < m.bank.count ∧ n = { m with bank := { m.bank with current := value } } :=
  Selector.map_select_eq_ok_iff

theorem selectBank_eq_error_iff {m : Machine} {value : UInt8} {fault : Fault} :
    m.selectBank value = .error fault ↔
      m.bank.count ≤ value ∧ fault = .parameterOutOfRange value m.bank.count :=
  Selector.map_select_eq_error_iff

theorem selectPalette_eq_ok_iff {m n : Machine} {value : UInt8} :
    m.selectPalette value = .ok n ↔
      value < m.palette.count ∧ n = { m with palette := { m.palette with current := value } } :=
  Selector.map_select_eq_ok_iff

theorem selectPalette_eq_error_iff {m : Machine} {value : UInt8} {fault : Fault} :
    m.selectPalette value = .error fault ↔
      m.palette.count ≤ value ∧ fault = .parameterOutOfRange value m.palette.count :=
  Selector.map_select_eq_error_iff

end Machine
end ByteMachine
