import ByteMachine.Event
import ByteMachine.Machine

/-!
This module contains routines: what an instruction does when it executes, as a value. A routine
looks at the machine and performs actions, and an action is the only way to change the machine.
Each action reports what it changes, so no routine changes the machine unseen.
-/

namespace ByteMachine

structure Execution where
  machine : Machine
  /-- Where the instruction after the executing one stands. -/
  nextAddress : UInt8
  /-- The program counter is not to be moved once the routine has ended. -/
  advanceSuppressed : Bool
deriving DecidableEq

/--
The state at the start of a routine; the program counter is at the instruction's last byte.
-/
def Execution.start (machine : Machine) : Execution where
  machine := machine
  nextAddress := machine.programCounter + 1
  advanceSuppressed := false

inductive Action where
  | setRegister (register : Register) (value : UInt8)
  | writeMemory (address value : UInt8)
  | writeVideoMemory (address value : UInt8)
  | setCarry (value : Bool)
  | jump (target : UInt8)
  | call (target : UInt8)
  | ret
  | selectBank (bank : UInt8)
  | selectPalette (palette : UInt8)
  | publish (event : Event)
deriving DecidableEq

structure Completion (α : Type) where
  value : Except Fault α
  execution : Execution
  events : List Event := []

def Completion.after (c : Completion α) (events : List Event) : Completion α :=
  { c with events := events ++ c.events }

namespace Execution

def jump (x : Execution) (target : UInt8) : Completion Unit where
  value := .ok ()
  execution :=
    { x with machine := { x.machine with programCounter := target }, advanceSuppressed := true }
  events := [.programCounterChanged target]

def change (x : Execution) (machine : Machine) (event : Event) : Completion Unit where
  value := .ok ()
  execution := { x with machine }
  events := [event]

def tryChange (x : Execution) (machine : Except Fault Machine) (event : Event) : Completion Unit :=
  match machine with
  | .ok machine => x.change machine event
  | .error fault => { value := .error fault, execution := x }

/--
Performs one action. A refused action leaves the machine as it is; a refused return also keeps the
program counter at the instruction.
-/
def perform (x : Execution) : Action → Completion Unit
  | .setRegister r value => x.change (x.machine.setRegister r value) (.registerChanged r value)
  | .writeMemory address value =>
    x.change (x.machine.setMemory address value) (.memoryChanged address value)
  | .writeVideoMemory address value =>
    x.change (x.machine.setVideoMemory address value) (.videoMemoryChanged address value)
  | .setCarry value =>
    if x.machine.carry = value then
      { value := .ok (), execution := x }
    else
      x.change { x.machine with carry := value } (.carryChanged value)
  | .jump target => x.jump target
  | .call target =>
    match x.machine.pushReturn x.nextAddress with
    | .ok machine => { x with machine }.jump target
    | .error fault => { value := .error fault, execution := x }
  | .ret =>
    match x.machine.popReturn with
    | .ok (target, machine) => { x with machine }.jump target
    | .error fault =>
      { value := .error fault, execution := { x with advanceSuppressed := true } }
  | .selectBank bank => x.tryChange (x.machine.selectBank bank) (.bankSelected bank)
  | .selectPalette palette =>
    x.tryChange (x.machine.selectPalette palette) (.paletteSelected palette)
  | .publish event => { value := .ok (), execution := x, events := [event] }

end Execution

inductive Routine (α : Type) where
  | done (value : α)
  | fail (fault : Fault)
  | inspect (next : Execution → Routine α)
  /-- Performs an action and goes on by what came of it. -/
  | perform (action : Action) (next : Except Fault Unit → Routine α)

namespace Routine

def bind : Routine α → (α → Routine β) → Routine β
  | .done value, f => f value
  | .fail fault, _ => .fail fault
  | .inspect next, f => .inspect fun x => (next x).bind f
  | .perform action next, f => .perform action fun r => (next r).bind f

instance : Monad Routine where
  pure := .done
  bind := bind

def ofExcept : Except Fault α → Routine α
  | .ok value => .done value
  | .error fault => .fail fault

instance : MonadLift (Except Fault) Routine where
  monadLift := ofExcept

def run : Routine α → Execution → Completion α
  | .done value, x => { value := .ok value, execution := x }
  | .fail fault, x => { value := .error fault, execution := x }
  | .inspect next, x => (next x).run x
  | .perform action next, x =>
    let first := x.perform action
    ((next first.value).run first.execution).after first.events

def attempt (action : Action) : Routine Unit :=
  .perform action ofExcept

def machine : Routine Machine :=
  .inspect fun x => .done x.machine

def register (r : Register) : Routine UInt8 := do
  return (← machine).register r

def memory (address : UInt8) : Routine UInt8 := do
  return (← machine).memory.get address

def carry : Routine Bool := do
  return (← machine).carry

def setRegister (r : Register) (value : UInt8) : Routine Unit :=
  attempt (.setRegister r value)

def writeMemory (address value : UInt8) : Routine Unit :=
  attempt (.writeMemory address value)

def writeVideoMemory (address value : UInt8) : Routine Unit :=
  attempt (.writeVideoMemory address value)

def setCarry (value : Bool) : Routine Unit :=
  attempt (.setCarry value)

def jump (target : UInt8) : Routine Unit :=
  attempt (.jump target)

def call (target : UInt8) : Routine Unit :=
  attempt (.call target)

def ret : Routine Unit :=
  attempt .ret

def selectBank (bank : UInt8) : Routine Unit :=
  attempt (.selectBank bank)

def selectPalette (palette : UInt8) : Routine Unit :=
  attempt (.selectPalette palette)

def publish (event : Event) : Routine Unit :=
  attempt (.publish event)

def print (text : String) : Routine Unit :=
  publish (.printRequested text)

@[simp]
theorem run_pure (value : α) (x : Execution) :
    (pure value : Routine α).run x = { value := .ok value, execution := x } := rfl

theorem run_bind (routine : Routine α) (f : α → Routine β) (x : Execution) :
    (routine >>= f).run x =
      match (routine.run x).value with
      | .ok value => ((f value).run (routine.run x).execution).after (routine.run x).events
      | .error fault => { routine.run x with value := .error fault } := by
  induction routine generalizing x with
  | done value => rfl
  | fail fault => rfl
  | inspect next ih => exact ih x x
  | perform action next ih =>
    have h := ih (x.perform action).value (x.perform action).execution
    have unfold_left : (Routine.perform action next >>= f).run x =
        ((next (x.perform action).value >>= f).run (x.perform action).execution).after
          (x.perform action).events := rfl
    rw [unfold_left, h]
    simp only [run, Completion.after]
    split <;> simp

end Routine
end ByteMachine
