import ByteMachine.Proofs.Engine.Tandem
import ByteMachine.Proofs.Instruction.Reads

/-!
This module contains the reason why limits may be raised: they decide which calls and selections are
refused, and nothing else, so a run in which none is refused does not depend on them.
-/

namespace ByteMachine

instance : LE Config where
  le c d :=
    c.callStackDepth ≤ d.callStackDepth ∧ c.bankCount ≤ d.bankCount ∧
      c.paletteCount ≤ d.paletteCount

def Fault.isLimit : Fault → Bool
  | .callStackOverflow _ => true
  | .parameterOutOfRange .. => true
  | .operandOutOfRange .. => false
  | .divideByZero => false
  | .callStackUnderflow => false

def Event.hitsLimit : Event → Bool
  | .error _ _ fault => fault.isLimit
  | _ => false

namespace Machine

def withLimits (m : Machine) (limits : Config) : Machine :=
  { m with
    callStack := { m.callStack with depth := limits.callStackDepth }
    bank := { m.bank with count := limits.bankCount }
    palette := { m.palette with count := limits.paletteCount } }

variable {m n : Machine} {limits : Config}

theorem pushReturn_withLimits {address : UInt8} (le : m.config ≤ limits)
    (pushed : m.pushReturn address = .ok n) :
    (m.withLimits limits).pushReturn address = .ok (n.withLimits limits) := by
  rw [pushReturn, CallStack.push] at pushed
  split at pushed
  . next room =>
    cases pushed
    rw [pushReturn, CallStack.push, withLimits, if_pos (Nat.lt_of_lt_of_le room le.1)]
    rfl
  . contradiction

theorem popReturn_withLimits (m : Machine) (limits : Config) :
    (m.withLimits limits).popReturn =
      m.popReturn.map fun (address, n) => (address, n.withLimits limits) := by
  rw [popReturn, popReturn, CallStack.pop, CallStack.pop, withLimits]
  cases m.callStack.entries <;> rfl

theorem selectBank_withLimits {value : UInt8} (le : m.config ≤ limits)
    (selected : m.selectBank value = .ok n) :
    (m.withLimits limits).selectBank value = .ok (n.withLimits limits) := by
  obtain ⟨below, rfl⟩ := selectBank_eq_ok_iff.1 selected
  exact selectBank_eq_ok_iff.2 ⟨UInt8.lt_of_lt_of_le below le.2.1, rfl⟩

theorem selectPalette_withLimits {value : UInt8} (le : m.config ≤ limits)
    (selected : m.selectPalette value = .ok n) :
    (m.withLimits limits).selectPalette value = .ok (n.withLimits limits) := by
  obtain ⟨below, rfl⟩ := selectPalette_eq_ok_iff.1 selected
  exact selectPalette_eq_ok_iff.2 ⟨UInt8.lt_of_lt_of_le below le.2.2, rfl⟩

end Machine

namespace Execution

structure Widened (limits : Config) (x y : Execution) : Prop where
  le : x.machine.config ≤ limits
  same : y = { x with machine := x.machine.withLimits limits }

theorem Widened.operands_eq {limits : Config} {x y : Execution} (h : Widened limits x y) :
    x.operands = y.operands := by
  obtain ⟨-, rfl⟩ := h
  rfl

theorem Widened.perform {limits : Config} {x y : Execution} (h : Widened limits x y)
    (action : Action)
    (calm : ∀ fault, (x.perform action).value = .error fault → fault.isLimit = false) :
    (x.perform action).Agree (Widened limits) (y.perform action) := by
  have le : (x.perform action).execution.machine.config ≤ limits := by
    rw [config_perform]
    exact h.le
  obtain ⟨bound, rfl⟩ := h
  cases action with
  | setRegister r value => exact ⟨rfl, rfl, le, rfl⟩
  | writeMemory address value => exact ⟨rfl, rfl, le, rfl⟩
  | writeVideoMemory address value => exact ⟨rfl, rfl, le, rfl⟩
  | publish event => exact ⟨rfl, rfl, le, rfl⟩
  | jump target => exact ⟨rfl, rfl, le, rfl⟩
  | setCarry value =>
    by_cases same : x.machine.carry = value
    . subst same
      simp only [Execution.perform, Machine.withLimits, ↓reduceIte]
      exact ⟨rfl, rfl, bound, rfl⟩
    . simp only [Execution.perform, Machine.withLimits, same, ↓reduceIte]
      exact ⟨rfl, rfl, bound, rfl⟩
  | call target =>
    simp only [Execution.perform] at le calm ⊢
    cases pushed : x.machine.pushReturn x.nextAddress with
    | ok n =>
      rw [pushed] at le
      rw [Machine.pushReturn_withLimits bound pushed]
      exact ⟨rfl, rfl, le, rfl⟩
    | error fault =>
      -- in a calm run the lower limit is not reached, so this does not happen
      obtain ⟨-, rfl⟩ := Machine.pushReturn_eq_error_iff.1 pushed
      rw [pushed] at calm
      cases calm _ rfl
  | ret =>
    simp only [Execution.perform, Machine.popReturn_withLimits] at le ⊢
    cases popped : x.machine.popReturn with
    | ok popped =>
      rw [popped] at le
      exact ⟨rfl, rfl, le, rfl⟩
    | error fault => exact ⟨rfl, rfl, bound, rfl⟩
  | selectBank value =>
    simp only [Execution.perform, tryChange] at le calm ⊢
    cases selected : x.machine.selectBank value with
    | ok n =>
      rw [selected] at le
      rw [Machine.selectBank_withLimits bound selected]
      exact ⟨rfl, rfl, le, rfl⟩
    | error fault =>
      obtain ⟨-, rfl⟩ := Machine.selectBank_eq_error_iff.1 selected
      rw [selected] at calm
      cases calm _ rfl
  | selectPalette value =>
    simp only [Execution.perform, tryChange] at le calm ⊢
    cases selected : x.machine.selectPalette value with
    | ok n =>
      rw [selected] at le
      rw [Machine.selectPalette_withLimits bound selected]
      exact ⟨rfl, rfl, le, rfl⟩
    | error fault =>
      obtain ⟨-, rfl⟩ := Machine.selectPalette_eq_error_iff.1 selected
      rw [selected] at calm
      cases calm _ rfl

end Execution

theorem Opcode.attempts_or_isLimit_eq_false {op : Opcode} {ops : Operands}
    (accept : OperandKind.Accept op.operands ops.bytes) :
    (∃ action, op.execute ops = Routine.attempt action) ∨
      ∀ fault, op.MayRaise fault → fault.isLimit = false := by
  obtain ⟨bytes⟩ := ops
  by_cases limited : op = .call ∨ op = .selectBank ∨ op = .selectPalette
  . left
    obtain ⟨value, rfl⟩ : ∃ value, bytes = [value] := by
      rcases limited with rfl | rfl | rfl <;>
        simpa [operands, OperandKind.accept_constant_cons_iff,
          OperandKind.accept_memoryAddress_cons_iff] using accept
    rcases limited with rfl | rfl | rfl
    . exact ⟨.call value, rfl⟩
    . exact ⟨.selectBank value, rfl⟩
    . exact ⟨.selectPalette value, rfl⟩
  . right
    intro fault raised
    cases fault <;> simp_all [MayRaise, Fault.isLimit]

theorem Opcode.agree_run_of_widened {op : Opcode} {ops : Operands} {limits : Config}
    {x y : Execution} (accept : OperandKind.Accept op.operands ops.bytes)
    (widened : x.Widened limits y)
    (calm : ∀ fault, ((op.execute ops).run x).value = .error fault → fault.isLimit = false) :
    ((op.execute ops).run x).Agree (Execution.Widened limits) ((op.execute ops).run y) := by
  -- what can reach a limit is a single attempt, so no routine goes on after a refusal
  rcases op.attempts_or_isLimit_eq_false accept with ⟨action, attempts⟩ | unlimited
  . rw [attempts, Routine.run_attempt] at calm ⊢
    rw [Routine.run_attempt]
    exact widened.perform action calm
  . refine (op.looksAt_execute ops).run_of_within (P := op.Permits ops)
      (fun widened => widened.operands_eq) ?_ ?_ (within_execute accept) widened
    . intro x y widened action permits
      apply widened.perform
      intro fault refused
      exact unlimited fault (mayRaise_perform x permits refused)
    . intro x action fault permits
      exact mayRaise_perform x permits

theorem Pending.agree_execute_of_widened {p : Pending} {op : Opcode}
    (instruction : p.instruction = op.instruction) (length : p.collected.length = p.required)
    {m : Machine} {limits : Config} (le : m.config ≤ limits)
    (calm : ∀ fault, (p.execute m).value = .error fault → fault.isLimit = false) :
    (p.execute m).Agree (Execution.Widened limits) (p.execute (m.withLimits limits)) := by
  have start : (Execution.start m).Widened limits (.start (m.withLimits limits)) := ⟨le, rfl⟩
  cases valid : p.validate with
  | ok =>
    have accept := accept_of_validate length valid
    have runs : ∀ m, p.execute m = (op.execute ⟨p.collected⟩).run (.start m) := by
      intro m
      rw [execute, valid, instruction]
      rfl
    rw [instruction] at accept
    rw [runs] at calm
    rw [runs, runs]
    exact Opcode.agree_run_of_widened accept start calm
  | error fault =>
    simp only [execute, valid]
    exact ⟨rfl, rfl, start⟩

namespace Engine

def Widened (limits : Config) (e f : Engine) : Prop :=
  f = { e with machine := e.machine.withLimits limits }

theorem Widened.execute {limits : Config} {e f : Engine} (h : e.Widened limits f)
    (standard : e.instructions = .standard) (le : e.config ≤ limits) {p : Pending}
    (placed : e.Placed p) (ready : p.isReady)
    (calm : ∀ event ∈ (e.execute p).events, event.hitsLimit = false) :
    (e.execute p).Agree (Widened limits) (f.execute p) := by
  obtain ⟨op, -, instruction⟩ := instruction_of_standard standard placed.lookup_opcode
  have unlimited : ∀ fault, (p.execute e.machine).value = .error fault →
      fault.isLimit = false := by
    intro fault raised
    apply calm (.error p.opcode p.position fault)
    simp [Engine.execute, raised, Pending.closing]
  obtain ⟨value, events, -, execution⟩ :=
    p.agree_execute_of_widened instruction (placed.length_eq ready) le unlimited
  rw [Widened] at h
  subst h
  simp only [Engine.execute, ← value, ← events, execution]
  split <;> exact ⟨rfl, rfl, rfl⟩

structure Relaxed (limits : Config) (e f : Engine) : Prop where
  standard : e.instructions = .standard
  decoding : e.Decoding
  le : e.config ≤ limits
  widened : e.Widened limits f

theorem Relaxed.cycle {limits : Config} {e f : Engine} (h : e.Relaxed limits f)
    (calm : ∀ event ∈ e.cycle.events, event.hitsLimit = false) :
    e.cycle.Agree (Relaxed limits) f.cycle := by
  have agree : e.cycle.Agree (Widened limits) f.cycle := by
    obtain ⟨standard, decoding, le, rfl⟩ := h
    apply agree_cycle_of_machine decoding
    . rfl
    . rfl
    . intro pending
      rfl
    . intro p event placed ready cycle
      apply Widened.execute rfl standard le placed ready
      intro event mem
      apply calm
      rw [cycle]
      exact List.mem_cons_of_mem _ mem
  have setup := e.sameSetup_cycle
  refine ⟨agree.result, agree.events, ?_, h.decoding.cycle, ?_, agree.engine⟩
  . rw [setup.instructions, h.standard]
  . rw [setup.config]
    exact h.le

theorem tandemWhile_relaxed (limits : Config) :
    TandemWhile (·.hitsLimit = false) (Relaxed limits) where
  cycle := Relaxed.cycle
  load {e f} h program := by
    obtain ⟨standard, decoding, le, rfl⟩ := h
    have setup := e.sameSetup_load program
    refine ⟨rfl, rfl, ?_, decoding_of_idle rfl, ?_, rfl⟩
    . rw [setup.instructions, standard]
    . rw [setup.config]
      exact le
  reset {e f} h := by
    obtain ⟨standard, decoding, le, rfl⟩ := h
    exact ⟨rfl, rfl, standard, decoding_of_idle rfl, le, rfl⟩
  setRegister {e f} h r value := by
    obtain ⟨standard, decoding, le, rfl⟩ := h
    exact ⟨rfl, rfl, standard, lawful_decoding.setRegister e r value decoding, le, rfl⟩
  setMemory {e f} h address value := by
    obtain ⟨standard, decoding, le, rfl⟩ := h
    exact ⟨rfl, rfl, standard, lawful_decoding.setMemory e address value decoding, le, rfl⟩
  setVideoMemory {e f} h address value := by
    obtain ⟨standard, decoding, le, rfl⟩ := h
    exact ⟨rfl, rfl, standard, lawful_decoding.setVideoMemory e address value decoding, le, rfl⟩
  setProgramCounter {e f} h value := by
    obtain ⟨standard, decoding, le, rfl⟩ := h
    exact ⟨rfl, rfl, standard, decoding_of_idle rfl, le, rfl⟩

theorem raised_limits_keep_run {c d : Config} (le : c ≤ d) (operations : List Operation)
    (calm : ∀ sight ∈ (new c).watch operations, ∀ event ∈ sight.events, event.hitsLimit = false) :
    (new d).watch operations = (new c).watch operations := by
  have relaxed : (new c).Relaxed d (new d) := ⟨rfl, decoding_of_idle rfl, le, rfl⟩
  have sees : ∀ {e f : Engine}, e.Relaxed d f → id e.snapshot = id f.snapshot := by
    rintro e f ⟨-, -, -, rfl⟩
    rfl
  have same := (tandemWhile_relaxed d).watch id sees relaxed operations calm
  have whole : Sight.through id = id := rfl
  rw [whole, List.map_id, List.map_id] at same
  exact same.symm

def returning : List Operation :=
  [.load [0x25, 6, 0x51, 1, 0x26, 0, 0x15, 0x00, 0x26], .run 2, .step, .run 3, .step]

theorem raised_limits_keep_run_of_returning :
    let c : Config := ⟨1, 2, 0⟩
    c ≤ {} ∧
      (∀ sight ∈ (new c).watch returning, ∀ event ∈ sight.events, event.hitsLimit = false) ∧
      ((new c).watch returning).map Sight.answer =
        [.count 9, .count 1, .outcome (.faulted 0x15 .divideByZero), .count 2,
          .outcome (.faulted 0x26 .callStackUnderflow)] ∧
      (new {}).watch returning = (new c).watch returning := by
  intro c
  have le : c ≤ {} := ⟨by decide, by decide, by decide⟩
  have calm : ∀ sight ∈ (new c).watch returning, ∀ event ∈ sight.events,
      event.hitsLimit = false := by
    decide +kernel
  exact ⟨le, calm, by decide +kernel, raised_limits_keep_run le returning calm⟩

end Engine
end ByteMachine
