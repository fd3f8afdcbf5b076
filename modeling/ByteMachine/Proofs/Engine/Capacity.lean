import ByteMachine.Proofs.Engine.History
import ByteMachine.Proofs.Engine.LoadImage

/-!
This module contains what the limits of a machine guarantee: in every engine that a history reaches,
and in the middle of every instruction, the call stack holds no more return addresses than it may
and the selectors stand on something that can be selected. What a limit refuses changes nothing.
-/

namespace ByteMachine

/--
The selection is one of so many choices; if there are none it is still the one at the start.
-/
def Selector.Admits (count current : UInt8) : Prop :=
  current < count ∨ count = 0 ∧ current = 0

theorem Selector.admits_zero (count : UInt8) : Admits count 0 := by
  by_cases none : count = 0
  . exact .inr ⟨none, rfl⟩
  . exact .inl (UInt8.pos_iff_ne_zero.2 none)

namespace Machine

structure Within (limits : Config) (m : Machine) : Prop where
  config_eq : m.config = limits
  frames_le : m.callStack.frames.length ≤ limits.callStackDepth
  bank : Selector.Admits limits.bankCount m.bank.current
  palette : Selector.Admits limits.paletteCount m.palette.current

structure Cleared (limits : Config) (m : Machine) : Prop where
  config_eq : m.config = limits
  frames_eq : m.callStack.frames = []
  bank_eq : m.bank.current = 0
  palette_eq : m.palette.current = 0

variable {m n : Machine} {limits : Config}

theorem Cleared.within (h : m.Cleared limits) : m.Within limits := by
  refine ⟨h.config_eq, ?_, ?_, ?_⟩
  . rw [h.frames_eq]
    exact Nat.zero_le _
  . rw [h.bank_eq]
    exact Selector.admits_zero _
  . rw [h.palette_eq]
    exact Selector.admits_zero _

theorem cleared_new (limits : Config) : (new limits).Cleared limits := ⟨rfl, rfl, rfl, rfl⟩

theorem Within.of_same (h : m.Within limits) (callStack : n.callStack = m.callStack)
    (bank : n.bank = m.bank) (palette : n.palette = m.palette) : n.Within limits := by
  refine ⟨?_, ?_, ?_, ?_⟩
  . rw [← h.config_eq, Machine.config, Machine.config, callStack, bank, palette]
  . rw [callStack]
    exact h.frames_le
  . rw [bank]
    exact h.bank
  . rw [palette]
    exact h.palette

theorem Within.advance (h : m.Within limits) : m.advance.Within limits :=
  h.of_same rfl rfl rfl

theorem Within.pushReturn {address : UInt8} (h : m.Within limits)
    (pushed : m.pushReturn address = .ok n) : n.Within limits := by
  obtain ⟨callStack, push, rfl⟩ := pushReturn_eq_ok_iff.1 pushed
  obtain ⟨room, depth, frames⟩ := CallStack.push_eq_ok_iff.1 push
  obtain ⟨rfl, -, bank, palette⟩ := h
  refine ⟨?_, ?_, bank, palette⟩
  . rw [Machine.config, depth]
    rfl
  . rw [frames, List.length_append]
    exact room

theorem Within.popReturn {address : UInt8} (h : m.Within limits)
    (popped : m.popReturn = .ok (address, n)) : n.Within limits := by
  obtain ⟨callStack, pop, rfl⟩ := popReturn_eq_ok_iff.1 popped
  have frames := CallStack.frames_of_pop pop
  obtain ⟨rfl, fits, bank, palette⟩ := h
  refine ⟨?_, ?_, bank, palette⟩
  . rw [Machine.config, CallStack.depth_of_pop pop]
    rfl
  . rw [frames, List.length_append] at fits
    exact Nat.le_of_succ_le fits

theorem Within.selectBank {value : UInt8} (h : m.Within limits)
    (selected : m.selectBank value = .ok n) : n.Within limits := by
  obtain ⟨below, rfl⟩ := selectBank_eq_ok_iff.1 selected
  obtain ⟨rfl, frames, -, palette⟩ := h
  exact ⟨rfl, frames, .inl below, palette⟩

theorem Within.selectPalette {value : UInt8} (h : m.Within limits)
    (selected : m.selectPalette value = .ok n) : n.Within limits := by
  obtain ⟨below, rfl⟩ := selectPalette_eq_ok_iff.1 selected
  obtain ⟨rfl, frames, bank, -⟩ := h
  exact ⟨rfl, frames, bank, .inl below⟩

end Machine

def Action.excess? (limits : Config) (frames : Nat) : Action → Option Fault
  | .call _ =>
    if frames < limits.callStackDepth then none
    else some (.callStackOverflow limits.callStackDepth)
  | .selectBank bank =>
    if bank < limits.bankCount then none else some (.parameterOutOfRange bank limits.bankCount)
  | .selectPalette palette =>
    if palette < limits.paletteCount then none
    else some (.parameterOutOfRange palette limits.paletteCount)
  | _ => none

namespace Execution

/--
The state after these actions, whatever comes of them. While an instruction executes, the machine is
only ever in such a state.
-/
def performAll (x : Execution) (actions : List Action) : Execution :=
  actions.foldl (fun x action => (x.perform action).execution) x

theorem within_perform {x : Execution} {limits : Config} (h : x.machine.Within limits)
    (action : Action) : (x.perform action).execution.machine.Within limits := by
  cases action with
  | setRegister | writeMemory | writeVideoMemory | jump =>
    exact h.of_same rfl rfl rfl
  | publish event => exact h
  | setCarry value =>
    simp only [perform]
    split
    . exact h
    . exact h.of_same rfl rfl rfl
  | call target =>
    simp only [perform]
    split
    . next pushed => exact (h.pushReturn pushed).of_same rfl rfl rfl
    . exact h
  | ret =>
    simp only [perform]
    split
    . next popped => exact (h.popReturn popped).of_same rfl rfl rfl
    . exact h
  | selectBank bank =>
    simp only [perform, tryChange]
    split
    . next selected => exact h.selectBank selected
    . exact h
  | selectPalette palette =>
    simp only [perform, tryChange]
    split
    . next selected => exact h.selectPalette selected
    . exact h

theorem within_performAll {x : Execution} {limits : Config} (h : x.machine.Within limits)
    (actions : List Action) : (x.performAll actions).machine.Within limits := by
  induction actions generalizing x with
  | nil => exact h
  | cons action rest ih => exact ih (within_perform h action)

theorem perform_of_excess {x : Execution} {limits : Config} (config : x.machine.config = limits)
    {action : Action} {fault : Fault}
    (exceeds : action.excess? limits x.machine.callStack.frames.length = some fault) :
    x.perform action = { value := .error fault, execution := x } := by
  subst config
  cases action with
  | call target =>
    simp only [Action.excess?, Option.ite_none_left_eq_some, Option.some.injEq] at exceeds
    have full : x.machine.pushReturn x.nextAddress = .error fault :=
      Machine.pushReturn_eq_error_iff.2 ⟨Nat.not_lt.1 exceeds.1, exceeds.2.symm⟩
    simp only [perform, full]
  | selectBank bank =>
    simp only [Action.excess?, Option.ite_none_left_eq_some, Option.some.injEq] at exceeds
    have above := Machine.selectBank_eq_error_iff.2
      ⟨UInt8.not_lt.1 exceeds.1, exceeds.2.symm⟩
    simp only [perform, tryChange, above]
  | selectPalette palette =>
    simp only [Action.excess?, Option.ite_none_left_eq_some, Option.some.injEq] at exceeds
    have above := Machine.selectPalette_eq_error_iff.2
      ⟨UInt8.not_lt.1 exceeds.1, exceeds.2.symm⟩
    simp only [perform, tryChange, above]
  | _ => cases exceeds

theorem excess_of_refused {x : Execution} {limits : Config} (config : x.machine.config = limits)
    {action : Action} (other : action ≠ .ret) {fault : Fault}
    (refused : (x.perform action).value = .error fault) :
    action.excess? limits x.machine.callStack.frames.length = some fault := by
  subst config
  cases action with
  | ret => contradiction
  | call target =>
    simp only [perform] at refused
    split at refused
    . cases refused
    . next overflow =>
      cases refused
      obtain ⟨full, rfl⟩ := Machine.pushReturn_eq_error_iff.1 overflow
      exact if_neg (Nat.not_lt.2 full)
  | selectBank bank =>
    simp only [perform, tryChange] at refused
    split at refused
    . cases refused
    . next outside =>
      cases refused
      obtain ⟨above, rfl⟩ := Machine.selectBank_eq_error_iff.1 outside
      exact if_neg (UInt8.not_lt.2 above)
  | selectPalette palette =>
    simp only [perform, tryChange] at refused
    split at refused
    . cases refused
    . next outside =>
      cases refused
      obtain ⟨above, rfl⟩ := Machine.selectPalette_eq_error_iff.1 outside
      exact if_neg (UInt8.not_lt.2 above)
  | setCarry value =>
    simp only [perform] at refused
    split at refused <;> cases refused
  | _ => cases refused

end Execution

theorem Routine.execution_run_eq_performAll (routine : Routine α) (x : Execution) :
    ∃ actions, (routine.run x).execution = x.performAll actions := by
  induction routine generalizing x with
  | done value => exact ⟨[], rfl⟩
  | fail fault => exact ⟨[], rfl⟩
  | inspect next ih => exact ih x x
  | perform action next ih =>
    obtain ⟨actions, ends⟩ := ih (x.perform action).value (x.perform action).execution
    exact ⟨action :: actions, ends⟩

theorem Pending.within_execute {m : Machine} {limits : Config} (h : m.Within limits)
    (p : Pending) : (p.execute m).execution.machine.Within limits := by
  rw [execute]
  split
  . obtain ⟨actions, ends⟩ :=
      (p.instruction.execute ⟨p.collected⟩).execution_run_eq_performAll (.start m)
    rw [ends]
    exact Execution.within_performAll h actions
  . exact h

namespace Engine

variable {limits : Config}

theorem within_execute {e : Engine} (h : e.machine.Within limits) (p : Pending) :
    (e.execute p).engine.machine.Within limits := by
  have within := p.within_execute h
  simp only [execute]
  split
  . exact within
  . exact within.advance

theorem within_cycle {e : Engine} (h : e.machine.Within limits) :
    e.cycle.engine.machine.Within limits := by
  rcases e.cycle_cases with ⟨idle, unbound⟩ | ⟨p, event, waiting, consumes⟩ | ⟨p, -, -, cycle⟩
  . rw [cycle_of_unbound idle unbound]
    exact h.advance
  . rw [cycle_of_consumes consumes]
    cases ready : p.isReady with
    | true =>
      rw [e.proceed_of_ready ready]
      exact within_execute h p
    | false =>
      rw [e.proceed_of_not_ready ready]
      exact h.advance
  . rw [cycle]
    exact within_execute h p

theorem cleared_load (program : List UInt8) (e : Engine) :
    (e.load program).engine.machine.Cleared e.config :=
  ⟨(e.sameSetup_load program).config, rfl, rfl, rfl⟩

theorem cleared_loadImage (image : Image) (e : Engine) :
    (e.loadImage image).engine.machine.Cleared e.config := by
  rw [engine_loadImage]
  exact ⟨rfl, rfl, rfl, rfl⟩

theorem cleared_reset (e : Engine) : e.reset.engine.machine.Cleared e.config :=
  Machine.cleared_new _

theorem lawful_within (limits : Config) :
    Lawful fun e _ f => e.machine.Within limits → f.machine.Within limits where
  refl _ h := h
  trans first second h := second (first h)
  cycle _ h := within_cycle h
  load e program h := by
    rw [← h.config_eq]
    exact (cleared_load program e).within
  reset e h := by
    rw [← h.config_eq]
    exact e.cleared_reset.within
  setRegister _ _ _ h := h.of_same rfl rfl rfl
  setMemory _ _ _ h := h.of_same rfl rfl rfl
  setVideoMemory _ _ _ h := h.of_same rfl rfl rfl
  setProgramCounter _ _ h := h.of_same rfl rfl rfl

theorem limits_hold_of_history (config : Config) (set : InstructionSet)
    (operations : List Operation) :
    let e := ((withInstructions config set).performAll operations).engine
    e.machine.Within config ∧
    (∀ actions,
      let x := (Execution.start e.machine).performAll actions
      x.machine.Within config ∧
      (∀ action fault, action.excess? config x.machine.callStack.frames.length = some fault →
        x.perform action = { value := .error fault, execution := x }) ∧
      ∀ action fault, (x.perform action).value = .error fault → action ≠ .ret →
        action.excess? config x.machine.callStack.frames.length = some fault) ∧
    (∀ program, (e.load program).engine.machine.Cleared config) ∧
    (∀ image, (e.loadImage image).engine.machine.Cleared config) ∧
    e.reset.engine.machine.Cleared config := by
  intro e
  have within : e.machine.Within config :=
    (lawful_within config).performAll operations (withInstructions config set)
      (Machine.cleared_new config).within
  have limits : e.config = config := within.config_eq
  refine ⟨within, ?_, ?_, ?_, ?_⟩
  . intro actions x
    have inside : x.machine.Within config := Execution.within_performAll within actions
    refine ⟨inside, ?_, ?_⟩
    . intro action fault exceeds
      exact Execution.perform_of_excess inside.config_eq exceeds
    . intro action fault refused other
      exact Execution.excess_of_refused inside.config_eq other refused
  . intro program
    rw [← limits]
    exact cleared_load program e
  . intro image
    rw [← limits]
    exact cleared_loadImage image e
  . rw [← limits]
    exact e.cleared_reset

def heedless : InstructionSet where
  lookup byte :=
    if byte = 0x80 then
      some
        { name := "RUSH", description := "", operands := []
          execute := fun _ =>
            .perform (.call 1) fun _ => .perform (.call 2) fun _ =>
              .perform (.selectBank 254) fun _ => .perform (.selectPalette 0) fun _ =>
                .perform (.jump 0) fun _ => .fail .divideByZero }
    else
      none

def narrow : Config := ⟨3, 255, 0⟩

def crowded : Engine :=
  ((withInstructions narrow heedless).performAll [.setMemory 0 0x80, .run 2]).engine

def halfway : Execution :=
  (Execution.start crowded.machine).performAll [.ret, .call 7]

theorem limits_hold_of_heedless :
    crowded.machine.callStack.frames = [1, 1, 1] ∧ crowded.machine.bank.current = 254 ∧
      crowded.machine.Within narrow ∧ halfway.machine.Within narrow ∧
      halfway.perform (.call 9) =
        { value := .error (.callStackOverflow 3), execution := halfway } ∧
      halfway.perform (.selectPalette 0) =
        { value := .error (.parameterOutOfRange 0 0), execution := halfway } ∧
      (crowded.load [7]).engine.machine.Cleared narrow := by
  obtain ⟨within, inside, cleared, -⟩ :=
    limits_hold_of_history narrow heedless [.setMemory 0 0x80, .run 2]
  obtain ⟨between, refused, -⟩ := inside [.ret, .call 7]
  have full : (Action.call 9).excess? narrow halfway.machine.callStack.frames.length =
      some (.callStackOverflow 3) := by
    decide +kernel
  have none : (Action.selectPalette 0).excess? narrow halfway.machine.callStack.frames.length =
      some (.parameterOutOfRange 0 0) := rfl
  exact ⟨by decide +kernel, by decide +kernel, within, between, refused _ _ full,
    refused _ _ none, cleared [7]⟩

end Engine
end ByteMachine
