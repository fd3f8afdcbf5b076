import ByteMachine.Engine
import ByteMachine.Proofs.Routine

/-!
This module contains what a single cycle can do: skip a byte, or take it into an instruction that
then waits for more or is executed.
-/

namespace ByteMachine
namespace Engine

theorem add_ofNat_succ (address : UInt8) (n : Nat) :
    address + UInt8.ofNat (n + 1) = address + 1 + UInt8.ofNat n := by
  rw [Nat.add_comm, UInt8.ofNat_add, ← UInt8.add_assoc]
  rfl

theorem instruction_of_standard {e : Engine} (standard : e.instructions = .standard)
    {byte : UInt8} {instruction : Instruction}
    (bound : e.instructions.lookup byte = some instruction) :
    ∃ op : Opcode, byte = op.byte ∧ instruction = op.instruction := by
  rw [standard] at bound
  exact InstructionSet.lookup_standard_eq_some_iff.1 bound

def nextByte (e : Engine) : UInt8 :=
  e.machine.memory.get e.machine.programCounter

def opened (e : Engine) (instruction : Instruction) : Pending where
  opcode := e.nextByte
  position := e.machine.programCounter
  instruction := instruction

@[simp]
theorem missing_opened (e : Engine) (instruction : Instruction) :
    (e.opened instruction).missing = instruction.operands.length := rfl

inductive Consumes (e : Engine) : Pending → Event → Outcome → Prop where
  | opcode {instruction : Instruction} (idle : e.pending = none)
    (bound : e.instructions.lookup e.nextByte = some instruction) :
    Consumes e (e.opened instruction)
      (.instructionParseBegun e.nextByte e.machine.programCounter) (.fetched e.nextByte)
  | operand {p : Pending} {kind : OperandKind} (collecting : e.pending = some p)
    (next : p.nextKind = some kind) :
    Consumes e (p.collect e.nextByte) (.parameterParsed kind e.nextByte e.machine.programCounter)
      (.operandCollected e.nextByte)

def skip (e : Engine) : Reaction Outcome where
  result := .invalidByte e.nextByte
  engine := { e with machine := e.machine.advance }
  events := [.invalidByteParsed e.nextByte e.machine.programCounter,
    .programCounterChanged (e.machine.programCounter + 1)]
  log := [⟨.trace,
    s!"{Number.hex e.machine.programCounter}: invalid byte {Number.hex e.nextByte}"⟩]

theorem cycle_of_unbound {e : Engine} (idle : e.pending = none)
    (unbound : e.instructions.lookup e.nextByte = none) : e.cycle = e.skip := by
  obtain ⟨machine, instructions, pending⟩ := e
  cases idle
  simp only [nextByte] at unbound
  simp only [cycle, fetch, unbound]
  rfl

theorem cycle_of_consumes {e : Engine} {p : Pending} {event : Event} {waiting : Outcome}
    (h : e.Consumes p event waiting) : e.cycle = (e.proceed p waiting).after [event] := by
  cases h with
  | opcode idle bound =>
    simp only [nextByte] at bound
    simp only [cycle, idle, fetch, bound]
    rfl
  | operand collecting next =>
    simp only [cycle, collecting, collect, next]
    rfl

theorem cycle_cases (e : Engine) :
    (e.pending = none ∧ e.instructions.lookup e.nextByte = none) ∨
      (∃ p event waiting, e.Consumes p event waiting) ∨
      ∃ p, e.pending = some p ∧ p.isReady ∧ e.cycle = e.execute p := by
  cases pending : e.pending with
  | none =>
    cases bound : e.instructions.lookup e.nextByte with
    | none => exact .inl ⟨rfl, rfl⟩
    | some instruction => exact .inr (.inl ⟨_, _, _, .opcode pending bound⟩)
  | some p =>
    cases next : p.nextKind with
    | none =>
      refine .inr (.inr ⟨p, rfl, p.nextKind_eq_none_iff.1 next, ?_⟩)
      simp only [cycle, pending, collect, next]
    | some kind => exact .inr (.inl ⟨_, _, _, .operand pending next⟩)

theorem proceed_of_ready (e : Engine) {p : Pending} (ready : p.isReady) (waiting : Outcome) :
    e.proceed p waiting = e.execute p := by
  rw [proceed, if_pos ready]

def await (e : Engine) (p : Pending) : Engine :=
  { e with machine := e.machine.advance, pending := some p }

@[simp]
theorem pending_await (e : Engine) (p : Pending) : (e.await p).pending = some p := rfl

@[simp]
theorem missing_await (e : Engine) (p : Pending) : (e.await p).missing = p.missing := rfl

@[simp]
theorem memory_await (e : Engine) (p : Pending) :
    (e.await p).machine.memory = e.machine.memory := rfl

@[simp]
theorem programCounter_await (e : Engine) (p : Pending) :
    (e.await p).machine.programCounter = e.machine.programCounter + 1 := rfl

theorem proceed_of_not_ready (e : Engine) {p : Pending} (short : p.isReady = false)
    (waiting : Outcome) :
    e.proceed p waiting =
      { result := waiting
        engine := e.await p
        events := [.programCounterChanged (e.machine.programCounter + 1)] } := by
  rw [proceed, if_neg (by simp [short])]
  rfl

theorem Consumes.not_completes {e : Engine} {p : Pending} {event : Event} {waiting : Outcome}
    (h : e.Consumes p event waiting) : waiting.completes = false := by
  cases h <;> rfl

@[simp]
theorem result_execute (e : Engine) (p : Pending) :
    (e.execute p).result = p.outcome (p.execute e.machine).value := rfl

@[simp]
theorem pending_execute (e : Engine) (p : Pending) : (e.execute p).engine.pending = none := by
  simp only [execute]
  split <;> rfl

structure SameSetup (e f : Engine) : Prop where
  instructions : f.instructions = e.instructions
  config : f.config = e.config

theorem SameSetup.refl (e : Engine) : SameSetup e e := ⟨rfl, rfl⟩

theorem SameSetup.trans {e f g : Engine} (first : SameSetup e f) (second : SameSetup f g) :
    SameSetup e g :=
  ⟨second.instructions.trans first.instructions, second.config.trans first.config⟩

theorem sameSetup_execute (e : Engine) (p : Pending) : SameSetup e (e.execute p).engine := by
  have kept : (p.execute e.machine).execution.machine.config = e.config := by
    rw [Pending.execute]
    split
    . rw [Routine.config_run]
      rfl
    . rfl
  simp only [execute]
  split <;> exact ⟨rfl, kept⟩

theorem sameSetup_cycle (e : Engine) : SameSetup e e.cycle.engine := by
  rcases e.cycle_cases with ⟨idle, unbound⟩ | ⟨p, event, waiting, consumes⟩ | ⟨p, -, -, cycle⟩
  . rw [cycle_of_unbound idle unbound]
    exact ⟨rfl, rfl⟩
  . rw [cycle_of_consumes consumes]
    cases ready : p.isReady with
    | true =>
      rw [e.proceed_of_ready ready]
      exact e.sameSetup_execute p
    | false =>
      rw [e.proceed_of_not_ready ready]
      exact ⟨rfl, rfl⟩
  . rw [cycle]
    exact e.sameSetup_execute p

@[simp]
theorem instructions_cycle (e : Engine) : e.cycle.engine.instructions = e.instructions :=
  e.sameSetup_cycle.instructions

theorem sameSetup_load (e : Engine) (program : List UInt8) :
    SameSetup e (e.load program).engine := by
  refine ⟨?_, ?_⟩
  . cases e
    rfl
  . exact (e.machine.reset.config_copyProgram program).trans e.machine.config_reset

@[simp]
theorem instructions_load (e : Engine) (program : List UInt8) :
    (e.load program).engine.instructions = e.instructions :=
  (e.sameSetup_load program).instructions

end Engine
end ByteMachine
