import ByteMachine.Proofs.Engine.Confinement
import ByteMachine.Proofs.Instruction.Table

/-!
This module contains the step of an engine over a standard instruction: it does what the row of the
instruction in the table says.
-/

namespace ByteMachine

theorem Effect.apply_moved (f : Effect) (m : Machine) (last next : UInt8) :
    (if f.target.isSome then
      f.apply last { m with programCounter := last }
    else
      { f.apply last { m with programCounter := last } with programCounter := next }) =
      f.apply next m := by
  unfold apply
  cases f.target <;> rfl

theorem Opcode.ret_of_underflow {op : Opcode} {operands : List UInt8} {next : UInt8} {m : Machine}
    (underflow : op.row operands next m = .error .callStackUnderflow) : op = .ret := by
  cases op
  case ret => rfl
  case div | mod | call | selectBank | selectPalette =>
    unfold row at underflow
    dsimp only at underflow
    split at underflow <;> cases underflow
  all_goals contradiction

namespace Engine

/--
A step over an instruction with this opcode applies the effect, or ends in the fault with nothing
changed but the program counter. The instruction is followed by `next`, and the program counter
stays on a return without a return address.
-/
def StepMeets (e : Engine) (opcode next : UInt8) : Except Fault Effect → Prop
  | .ok effect =>
    e.step.result = .executed opcode ∧ printed e.step.events = effect.output.toList ∧
      e.step.engine = { e with machine := effect.apply next e.machine }
  | .error fault =>
    e.step.result = .faulted opcode fault ∧ printed e.step.events = [] ∧
      e.step.engine =
        { e with machine := { e.machine with programCounter :=
          if fault = .callStackUnderflow then e.machine.programCounter else next } }

theorem printed_operandEvents (address : UInt8) (kinds : List OperandKind) (bytes : List UInt8) :
    printed (operandEvents address kinds bytes) = [] := by
  induction kinds generalizing address bytes with
  | nil => rfl
  | cons kind kinds ih =>
    cases bytes with
    | nil => rfl
    | cons byte bytes => exact ih (address + 1) bytes

theorem printed_append (first second : List Event) :
    printed (first ++ second) = printed first ++ printed second :=
  List.filterMap_append

theorem printed_conclude (e : Engine) {p : Pending} (last : UInt8)
    (legal : OperandKind.Accept p.instruction.operands p.collected) :
    printed (e.conclude p last).events =
      printed ((p.instruction.execute ⟨p.collected⟩).run
        (.start { e.machine with programCounter := last })).events := by
  simp only [conclude, refusal?_of_accept legal, Execution.start]
  generalize (p.instruction.execute ⟨p.collected⟩).run _ = done
  rw [printed_append]
  cases done.value <;> cases done.execution.advanceSuppressed <;> simp [printed, Pending.closing]

section Step

variable {e : Engine} {op : Opcode} {bytes : List UInt8} (idle : e.pending = none)
  (bound : e.instructions.lookup e.nextByte = some op.instruction)
  (operands : bytesAfter e.machine.memory e.machine.programCounter op.operands.length = bytes)
  (legal : OperandKind.Accept op.operands bytes)

include idle bound operands legal

theorem step_of_legal :
    let last := e.machine.programCounter + UInt8.ofNat op.operands.length
    let done := (op.execute ⟨bytes⟩).run (.start { e.machine with programCounter := last })
    e.step.result = (e.opened op.instruction).outcome done.value ∧
      printed e.step.events = printed done.events ∧
      e.step.engine = { e with machine :=
        if done.execution.advanceSuppressed then
          done.execution.machine
        else
          { done.execution.machine with programCounter := last + 1 } } := by
  intro last done
  subst operands
  have front : printed (.instructionParseBegun e.nextByte e.machine.programCounter ::
      operandEvents e.machine.programCounter op.instruction.operands
        (e.complete op.instruction).collected) = [] :=
    printed_operandEvents _ _ _
  have concluded : e.step = (e.conclude (e.complete op.instruction) last).after _ :=
    step_eq_conclude idle bound
  obtain ⟨result, engine⟩ := conclude_of_legal e last (p := e.complete op.instruction) legal
  rw [concluded]
  refine ⟨result, ?_, ?_⟩
  . rw [Reaction.after, printed_append, front, List.nil_append]
    exact printed_conclude e last (p := e.complete op.instruction) legal
  . show (e.conclude (e.complete op.instruction) last).engine = _
    rw [engine, ← idle]
    rfl

theorem step_meets_row :
    let next := e.machine.programCounter + UInt8.ofNat op.operands.length + 1
    e.StepMeets e.nextByte next (op.row bytes next e.machine) := by
  intro next
  let last := e.machine.programCounter + UInt8.ofNat op.operands.length
  obtain ⟨result, texts, engine⟩ := step_of_legal idle bound operands legal
  -- a row does not look at the program counter
  have meets : Completion.Meets _ _ (op.row bytes next e.machine) :=
    op.meets_row legal { e.machine with programCounter := last }
  cases row : op.row bytes next e.machine with
  | ok effect =>
    rw [row] at meets
    obtain ⟨value, output, execution⟩ := meets
    refine ⟨?_, ?_, ?_⟩
    . rw [result, value]
      rfl
    . rw [texts, output]
    . rw [engine, execution]
      exact congrArg (fun machine => { e with machine }) (effect.apply_moved e.machine last next)
  | error fault =>
    rw [row] at meets
    obtain ⟨value, silent, execution⟩ := meets
    refine ⟨?_, ?_, ?_⟩
    . rw [result, value]
      rfl
    . rw [texts, silent]
      rfl
    . rw [engine, execution]
      by_cases underflow : fault = .callStackUnderflow
      . subst underflow
        cases Opcode.ret_of_underflow row
        -- a return has no operands, so its last byte is where it starts
        have only : last = e.machine.programCounter := UInt8.add_zero _
        show { e with machine := { e.machine with programCounter := last } } = _
        rw [only]
        rfl
      . rw [decide_eq_false underflow, if_neg underflow]
        rfl

end Step

theorem standard_instructions_meet_table {op : Opcode} {bytes : List UInt8}
    (legal : OperandKind.Accept op.operands bytes) :
    (∀ m, ((op.execute ⟨bytes⟩).run (.start m)).Meets m
      (op.row bytes (m.programCounter + 1) m)) ∧
    ∀ e : Engine, e.pending = none → e.instructions = .standard → e.nextByte = op.byte →
      bytesAfter e.machine.memory e.machine.programCounter op.operands.length = bytes →
      let next := e.machine.programCounter + UInt8.ofNat op.operands.length + 1
      e.StepMeets op.byte next (op.row bytes next e.machine) := by
  refine ⟨op.meets_row legal, ?_⟩
  intro e idle standard opcode operands
  have bound : e.instructions.lookup e.nextByte = some op.instruction := by
    rw [standard, opcode, InstructionSet.lookup_standard_byte]
  rw [← opcode]
  exact step_meets_row idle bound operands legal

def doubling : Engine :=
  ((new {}).performAll [.setMemory 255 0x10, .setMemory 0 0x22,
    .setRegister (.numbered 2) 200, .setProgramCounter 255]).engine

theorem doubling_meets_table :
    OperandKind.Accept Opcode.add.operands [0x22] ∧
      (∀ m, ((Opcode.add.execute ⟨[0x22]⟩).run (.start m)).Meets m
        (Opcode.add.row [0x22] (m.programCounter + 1) m)) ∧
      Opcode.add.row [0x22] 1 doubling.machine =
        .ok { register := some (.numbered 2, 400), carry := some true } ∧
      doubling.StepMeets 0x10 1
        (.ok { register := some (.numbered 2, 400), carry := some true }) := by
  have legal : OperandKind.Accept Opcode.add.operands [0x22] := .cons rfl .nil
  have meets := standard_instructions_meet_table legal
  have row : Opcode.add.row [0x22] 1 doubling.machine =
      .ok { register := some (.numbered 2, 400), carry := some true } := rfl
  have step := meets.2 doubling rfl rfl rfl rfl
  exact ⟨legal, meets.1, row, row ▸ step⟩

end Engine
end ByteMachine
