import ByteMachine.Proofs.Engine.History

/-!
This module contains what is true of decoding in every engine that a history reaches: the pending
instruction is in order, and it is there exactly as long as cycles do not complete.
-/

namespace ByteMachine

theorem Outcome.completes_eq_false_iff (outcome : Outcome) :
    outcome.completes = false ↔
      (∃ opcode, outcome = .fetched opcode) ∨ ∃ byte, outcome = .operandCollected byte := by
  cases outcome <;> simp [completes]

namespace Engine

theorem pending_cycle_iff (e : Engine) :
    e.cycle.engine.pending.isSome ↔ e.cycle.result.completes = false := by
  rcases e.cycle_cases with ⟨idle, unbound⟩ | ⟨p, event, waiting, consumes⟩ | ⟨p, -, -, cycle⟩
  . rw [cycle_of_unbound idle unbound]
    simp [skip, idle, Outcome.completes]
  . rw [cycle_of_consumes consumes]
    cases ready : p.isReady with
    | true =>
      rw [e.proceed_of_ready ready]
      simp [Reaction.after]
    | false =>
      rw [e.proceed_of_not_ready ready]
      simp [Reaction.after, consumes.not_completes]
  . rw [cycle]
    simp

theorem Coherent.next_kind {e : Engine} {p : Pending} (h : e.Coherent p) :
    ∃ kind, p.nextKind = some kind := by
  apply Option.ne_none_iff_exists'.1
  intro none
  have ready := p.nextKind_eq_none_iff.1 none
  have short := p.isReady_eq_false_iff.2 h.length_collected
  rw [short] at ready
  contradiction

theorem Coherent.toNat_programCounter {e : Engine} {p : Pending} (h : e.Coherent p) :
    e.machine.programCounter.toNat = (p.position.toNat + 1 + p.collected.length) % 256 := by
  rw [← h.position_add, UInt8.toNat_add, UInt8.toNat_add, UInt8.toNat_ofNat']
  simp

theorem decoding_of_history (config : Config) (set : InstructionSet)
    (operations : List Operation) :
    let e := ((withInstructions config set).performAll operations).engine
    (∀ p, e.pending = some p →
      set.lookup p.opcode = some p.instruction ∧
      p.collected.length < p.required ∧
      1 ≤ p.required ∧
      (∃ kind, p.nextKind = some kind ∧
        e.cycle = (e.proceed (p.collect e.nextByte) (.operandCollected e.nextByte)).after
          [.parameterParsed kind e.nextByte e.machine.programCounter]) ∧
      e.machine.programCounter.toNat =
        (p.position.toNat + 1 + p.collected.length) % 256) ∧
    (e.cycle.engine.pending.isSome ↔
      (∃ opcode, e.cycle.result = .fetched opcode) ∨
        ∃ byte, e.cycle.result = .operandCollected byte) := by
  intro e
  have instructions : e.instructions = set := (setup_of_history config set operations).1
  have decoding : e.Decoding := Reachable.decoding ⟨config, set, operations, rfl⟩
  constructor
  . intro p collecting
    have coherent := decoding p collecting
    obtain ⟨kind, next⟩ := coherent.next_kind
    refine ⟨?_, coherent.length_collected, ?_, ⟨kind, next, ?_⟩, coherent.toNat_programCounter⟩
    . rw [← instructions]
      exact coherent.lookup_opcode
    . have := coherent.length_collected
      omega
    . apply cycle_of_consumes
      exact .operand collecting next
  . rw [pending_cycle_iff, Outcome.completes_eq_false_iff]

def patient : InstructionSet where
  lookup byte :=
    if byte = 0x80 then
      some
        { name := "WAIT", description := "", execute := fun _ => pure ()
          operands := [.constant, .register, .constant] }
    else
      none

def patientHistory : List Operation :=
  [.setMemory 255 0x80, .setProgramCounter 255, .cycle, .setVideoMemory 3 7, .cycle,
    .setMemory 1 9]

theorem decoding_of_patient :
    let e := ((withInstructions {} patient).performAll patientHistory).engine
    (∃ p, e.pending = some p ∧ p.position = 255 ∧ p.collected = [0] ∧
      patient.lookup 0x80 = some p.instruction ∧
      p.nextKind.isSome ∧
      e.machine.programCounter.toNat = (255 + 1 + 1) % 256) ∧
    e.cycle.result = .operandCollected 9 ∧
    e.cycle.engine.pending.isSome := by
  have keeps := decoding_of_history {} patient patientHistory
  have collecting : ∃ p,
      ((withInstructions {} patient).performAll patientHistory).engine.pending = some p ∧
      p.opcode = 0x80 ∧ p.position = 255 ∧ p.collected = [0] :=
    ⟨_, rfl, rfl, rfl, rfl⟩
  obtain ⟨p, pending, opcode, position, collected⟩ := collecting
  obtain ⟨bound, -, -, ⟨kind, next, -⟩, place⟩ := keeps.1 p pending
  rw [opcode] at bound
  rw [position, collected] at place
  have outcome : ((withInstructions {} patient).performAll patientHistory).engine.cycle.result =
      .operandCollected 9 := rfl
  refine ⟨⟨p, pending, position, collected, bound, ?_, place⟩, outcome, ?_⟩
  . rw [next, Option.isSome_some]
  . exact keeps.2.2 (.inr ⟨9, outcome⟩)

end Engine
end ByteMachine
