import ByteMachine.Proofs.Disassembly.Row
import ByteMachine.Proofs.Engine.Decoding
import ByteMachine.Proofs.Instruction.Events

/-!
This module contains what the row at the program counter tells of the step from there: the engine,
which takes the bytes of an instruction cycle by cycle, decodes the same instruction.
-/

namespace ByteMachine

def parsedBytes (events : List Event) : List UInt8 :=
  events.filterMap fun
    | .parameterParsed _ byte _ => some byte
    | _ => none

@[simp]
theorem parsedBytes_nil : parsedBytes [] = [] := rfl

@[simp]
theorem parsedBytes_append (first second : List Event) :
    parsedBytes (first ++ second) = parsedBytes first ++ parsedBytes second :=
  List.filterMap_append

@[simp]
theorem parsedBytes_programCounterChanged (value : UInt8) (events : List Event) :
    parsedBytes (.programCounterChanged value :: events) = parsedBytes events := rfl

@[simp]
theorem parsedBytes_instructionParseBegun (opcode position : UInt8) (events : List Event) :
    parsedBytes (.instructionParseBegun opcode position :: events) = parsedBytes events := rfl

@[simp]
theorem parsedBytes_parameterParsed (kind : OperandKind) (byte position : UInt8)
    (events : List Event) :
    parsedBytes (.parameterParsed kind byte position :: events) = byte :: parsedBytes events := rfl

@[simp]
theorem parsedBytes_closing (p : Pending) (result : Except Fault Unit) (events : List Event) :
    parsedBytes (p.closing result :: events) = parsedBytes events := by
  cases result <;> rfl

theorem parsedBytes_eq_nil_of_marks {events : List Event} (silent : marks events = []) :
    parsedBytes events = [] := by
  rw [marks, List.filter_eq_nil_iff] at silent
  rw [parsedBytes, List.filterMap_eq_nil_iff]
  intro event mem
  have unmarked := silent event mem
  cases event with
  | parameterParsed kind byte position => exact absurd rfl unmarked
  | _ => rfl

namespace Pending

theorem exists_of_validate_eq_error {p : Pending} {fault : Fault}
    (invalid : p.validate = .error fault) :
    ∃ before kind byte after,
      p.instruction.operands.zip p.collected = before ++ (kind, byte) :: after ∧
      (∀ operand ∈ before, operand.1.accepts operand.2) ∧
      kind.accepts byte = false ∧
      fault = .operandOutOfRange byte kind := by
  simp only [validate] at invalid
  split at invalid
  . next kind byte found =>
    obtain ⟨illegal, before, after, split, legal⟩ := List.find?_eq_some_iff_append.1 found
    cases invalid
    exact ⟨before, kind, byte, after, split, by simpa using legal, by simpa using illegal, rfl⟩
  . contradiction

end Pending

namespace Engine

variable {e : Engine} {i : Instruction}

def executed (e : Engine) (i : Instruction) : Completion Unit :=
  (e.complete i).execute { e.machine with programCounter := e.lastByte i }

theorem step_eq_execute (idle : e.pending = none)
    (bound : e.instructions.lookup e.nextByte = some i) :
    e.step =
      ({ e with machine := { e.machine with programCounter := e.lastByte i } }.execute
        (e.complete i)).after
        (.instructionParseBegun e.nextByte e.machine.programCounter ::
          operandEvents e.machine.programCounter i.operands (e.complete i).collected) := by
  rw [step_eq_conclude idle bound, execute_eq_conclude rfl]
  rfl

theorem parsedBytes_operandEvents {kinds : List OperandKind} {bytes : List UInt8}
    (length : bytes.length = kinds.length) (address : UInt8) :
    parsedBytes (operandEvents address kinds bytes) = bytes := by
  induction kinds generalizing bytes address with
  | nil =>
    rw [List.length_eq_zero_iff.1 length]
    rfl
  | cons kind kinds ih =>
    obtain ⟨byte, bytes, rfl⟩ := List.exists_cons_of_length_eq_add_one length
    simp only [operandEvents, parsedBytes_programCounterChanged, parsedBytes_parameterParsed]
    rw [ih (Nat.succ.inj length)]

theorem result_step (idle : e.pending = none)
    (bound : e.instructions.lookup e.nextByte = some i) :
    e.step.result = (e.complete i).outcome (e.executed i).value := by
  rw [step_eq_execute idle bound]
  rfl

theorem parsedBytes_step (idle : e.pending = none)
    (bound : e.instructions.lookup e.nextByte = some i) :
    parsedBytes e.step.events = (e.complete i).collected ++ parsedBytes (e.executed i).events := by
  have length := e.length_collected_complete i
  rw [step_eq_execute idle bound]
  simp only [Reaction.after, execute, List.cons_append, parsedBytes_instructionParseBegun,
    parsedBytes_append, parsedBytes_closing, parsedBytes_operandEvents length]
  split <;> simp [executed, advance]

theorem programCounter_step (idle : e.pending = none)
    (bound : e.instructions.lookup e.nextByte = some i)
    (moves : (e.executed i).execution.advanceSuppressed = false) :
    e.step.engine.machine.programCounter =
      e.machine.programCounter + UInt8.ofNat i.encodedLength := by
  have place := programCounter_execute _ _ moves
  rw [executed] at moves
  rw [step_eq_execute idle bound, ← lastByte_add_one]
  simp [execute, moves, advance, Machine.advance, place]

theorem parsedBytes_executed (e : Engine) (op : Opcode) :
    parsedBytes (e.executed op.instruction).events = [] := by
  apply parsedBytes_eq_nil_of_marks
  have length := e.length_collected_complete op.instruction
  rcases Pending.execute_cases length { e.machine with programCounter := e.lastByte op.instruction }
    with ⟨byte, kind, execute⟩ | ⟨legal, execute⟩
  . rw [executed, execute]
    rfl
  . rw [executed, execute]
    exact Opcode.marks_execute ⟨_⟩ legal _

end Engine

namespace Disassembly

theorem zipWith_showOperand (kinds : List OperandKind) (bytes : List UInt8) :
    kinds.zipWith showOperand bytes =
      (kinds.zip bytes).map fun operand => showOperand operand.1 operand.2 := by
  rw [List.map_zip_eq_zipWith]
  rfl

theorem refused_not_mem {operands : List (OperandKind × UInt8)}
    (legal : ∀ operand ∈ operands, operand.1.accepts operand.2) (byte : UInt8) :
    refused byte ∉ operands.map fun operand => showOperand operand.1 operand.2 := by
  intro mem
  obtain ⟨operand, among, shown⟩ := List.mem_map.1 mem
  exact showOperand_ne_refused (legal operand among) byte shown

section Refusal

variable {p : Pending}

theorem refused_not_mem_of_validate (length : p.collected.length = p.required)
    (valid : p.validate = .ok ()) (byte : UInt8) :
    refused byte ∉ p.instruction.operands.zipWith showOperand p.collected := by
  have accept := Pending.accept_of_validate length valid
  rw [OperandKind.Accept, List.forall₂_iff_zip] at accept
  rw [zipWith_showOperand]
  exact refused_not_mem (fun _ mem => accept.2 mem) byte

theorem exists_first_refused {fault : Fault} (invalid : p.validate = .error fault) :
    ∃ before kind byte after,
      p.instruction.operands.zipWith showOperand p.collected = before ++ refused byte :: after ∧
      (∀ other, refused other ∉ before) ∧
      p.instruction.operands[before.length]? = some kind ∧
      p.collected[before.length]? = some byte ∧
      fault = .operandOutOfRange byte kind := by
  obtain ⟨before, kind, byte, after, split, legal, illegal, rfl⟩ :=
    Pending.exists_of_validate_eq_error invalid
  have place : (p.instruction.operands.zip p.collected)[before.length]? = some (kind, byte) := by
    rw [split, List.getElem?_append_right (Nat.le_refl _), Nat.sub_self, List.getElem?_cons_zero]
  obtain ⟨nth, taken⟩ := List.getElem?_zip_eq_some.1 place
  let shown : List (OperandKind × UInt8) → List String :=
    List.map fun operand => showOperand operand.1 operand.2
  have length : (shown before).length = before.length := List.length_map _
  refine ⟨shown before, kind, byte, shown after, ?_, refused_not_mem legal, ?_, ?_, rfl⟩
  . rw [zipWith_showOperand, split, List.map_append, List.map_cons, showOperand_of_refused illegal]
  . rw [length, nth]
  . rw [length, taken]

end Refusal

structure Foretells (shown : Row) (e : Engine) (i : Instruction) : Prop where
  bound : e.instructions.lookup e.nextByte = some i
  outcome : e.step.result = (e.complete i).outcome (e.executed i).value
  /-- Operand bytes that the routine reports itself come behind those of the row. -/
  bytes : e.nextByte :: parsedBytes e.step.events =
    shown.bytes ++ parsedBytes (e.executed i).events
  refuses : (∃ byte, refused byte ∈ shown.operands) ↔
    ∃ fault, (e.complete i).validate = .error fault
  first : ∀ fault, (e.complete i).validate = .error fault →
    ∃ before kind byte after,
      shown.operands = before ++ refused byte :: after ∧
      (∀ other, refused other ∉ before) ∧
      shown.bytes[before.length + 1]? = some byte ∧
      i.operands[before.length]? = some kind ∧
      fault = .operandOutOfRange byte kind ∧
      e.step.result = .faulted e.nextByte fault
  stop : (e.executed i).execution.advanceSuppressed = false →
    e.step.engine.machine.programCounter =
      e.machine.programCounter + UInt8.ofNat shown.length

theorem foretells_row {e : Engine} {i : Instruction} (idle : e.pending = none)
    (bound : e.instructions.lookup e.nextByte = some i) :
    Foretells (row e.instructions e.machine.memory e.machine.programCounter) e i := by
  have shown : row e.instructions e.machine.memory e.machine.programCounter =
      { address := e.machine.programCounter
        bytes := e.nextByte :: (e.complete i).collected
        mnemonic := i.name
        operands := i.operands.zipWith showOperand (e.complete i).collected
        isIllegal := false } := row_of_bound bound
  have collected := e.length_collected_complete i
  have outcome := Engine.result_step idle bound
  rw [shown]
  constructor
  . exact bound
  . exact outcome
  . rw [Engine.parsedBytes_step idle bound, List.cons_append]
  . constructor
    . rintro ⟨byte, mem⟩
      cases valid : (e.complete i).validate with
      | ok => exact absurd mem (refused_not_mem_of_validate collected valid byte)
      | error fault => exact ⟨fault, rfl⟩
    . rintro ⟨fault, invalid⟩
      obtain ⟨before, kind, byte, after, split, -⟩ := exists_first_refused invalid
      have mem : refused byte ∈ before ++ refused byte :: after := by simp
      rw [← split] at mem
      exact ⟨byte, mem⟩
  . intro fault invalid
    obtain ⟨before, kind, byte, after, split, unmarked, nth, taken, about⟩ :=
      exists_first_refused invalid
    refine ⟨before, kind, byte, after, split, unmarked, ?_, nth, about, ?_⟩
    . rw [List.getElem?_cons_succ, taken]
    . rw [outcome, Engine.executed, Pending.execute, invalid]
      rfl
  . intro moves
    rw [Engine.programCounter_step idle bound moves]
    simp [Row.length, collected, Instruction.encodedLength, Nat.add_comm]

theorem isIllegal_row_iff_step {e : Engine} (idle : e.pending = none) :
    (row e.instructions e.machine.memory e.machine.programCounter).isIllegal = true ↔
      ∃ byte, e.step.result = .invalidByte byte := by
  rw [isIllegal_row_iff]
  constructor
  . intro unbound
    rw [Engine.step_eq_atomic idle, Engine.atomicStep_of_unbound unbound]
    exact ⟨e.nextByte, rfl⟩
  . rintro ⟨byte, invalid⟩
    cases bound : e.instructions.lookup e.nextByte with
    | none => exact bound
    | some i =>
      rw [Engine.result_step idle bound] at invalid
      cases value : (e.executed i).value <;> simp [value, Pending.outcome] at invalid

theorem row_foretells_step {e : Engine} (idle : e.pending = none) :
    let shown := row e.instructions e.machine.memory e.machine.programCounter
    (shown.isIllegal = true ↔ ∃ byte, e.step.result = .invalidByte byte) ∧
    (shown.isIllegal = false → ∃ i, Foretells shown e i) ∧
    (e.instructions = .standard → shown.isIllegal = false →
      shown.bytes = e.nextByte :: parsedBytes e.step.events) := by
  intro shown
  have legal : shown.isIllegal = false → ∃ i, Foretells shown e i := by
    intro legal
    cases bound : e.instructions.lookup e.nextByte with
    | none =>
      have illegal : shown.isIllegal = true := isIllegal_row_iff.2 bound
      rw [legal] at illegal
      contradiction
    | some i => exact ⟨i, foretells_row idle bound⟩
  refine ⟨isIllegal_row_iff_step idle, legal, ?_⟩
  intro standard valid
  obtain ⟨i, foretells⟩ := legal valid
  obtain ⟨op, -, rfl⟩ := Engine.instruction_of_standard standard foretells.bound
  -- the routines of the standard set report no operands
  rw [foretells.bytes, Engine.parsedBytes_executed, List.append_nil]

theorem row_foretells_step_of_wrapping :
    let e := ((Engine.withInstructions {} Engine.patient).performAll
      [.setMemory 255 0x80, .setMemory 0 7, .setMemory 1 9, .setProgramCounter 255]).engine
    let shown := row e.instructions e.machine.memory e.machine.programCounter
    let f := Engine.straddling
    e.pending = none ∧
      shown.bytes = [0x80, 7, 9, 0] ∧
      shown.operands = ["7", refused 9, "0"] ∧
      parsedBytes e.step.events = [7, 9, 0] ∧
      e.step.result = .faulted 0x80 (.operandOutOfRange 9 .register) ∧
      e.step.engine.machine.programCounter = 3 ∧
      f.pending = none ∧
      0x11 :: parsedBytes f.step.events = [0x11, 5, 2] := by
  intro e shown f
  have idle : e.pending = none := rfl
  have bytes : shown.bytes = [0x80, 7, 9, 0] := by decide +kernel
  have operands : shown.operands = ["7", refused 9, "0"] := by decide +kernel
  obtain ⟨i, foretells⟩ := (row_foretells_step idle).2.1 rfl
  cases (Option.some.inj foretells.bound : _ = i)
  refine ⟨idle, bytes, operands, ?_, ?_, ?_, rfl, ?_⟩
  . have reported : e.nextByte :: parsedBytes e.step.events = [0x80, 7, 9, 0] := by
      rw [foretells.bytes]
      decide +kernel
    exact List.tail_eq_of_cons_eq reported
  . obtain ⟨_, _, _, _, -, -, -, -, -, faulted⟩ :=
      foretells.first (.operandOutOfRange 9 .register) (by decide +kernel)
    exact faulted
  . rw [foretells.stop (by decide +kernel)]
    decide +kernel
  . have reported := (row_foretells_step (rfl : f.pending = none)).2.2 rfl rfl
    exact reported.symm.trans (by decide +kernel)

def announcing : InstructionSet where
  lookup byte :=
    if byte = 0x80 then
      some
        { name := "ANNOUNCE", description := "", operands := [.constant]
          execute := fun _ => Routine.publish (.parameterParsed .constant 0xEE 1) }
    else
      none

def announcer : Engine :=
  ((Engine.withInstructions {} announcing).performAll
    [.setMemory 0 0x80, .setMemory 1 7]).engine

theorem bytes_row_announcer :
    announcer.pending = none ∧
      (row announcing announcer.machine.memory 0).isIllegal = false ∧
      (row announcing announcer.machine.memory 0).bytes = [0x80, 7] ∧
      announcer.nextByte :: parsedBytes announcer.step.events = [0x80, 7, 0xEE] ∧
      ¬ ∀ e : Engine, e.pending = none →
        let shown := row e.instructions e.machine.memory e.machine.programCounter
        shown.isIllegal = false → shown.bytes = e.nextByte :: parsedBytes e.step.events := by
  refine ⟨rfl, rfl, by decide +kernel, by decide +kernel, ?_⟩
  intro exact_bytes
  have equation := exact_bytes announcer rfl rfl
  exact absurd equation (by decide +kernel)

end Disassembly
end ByteMachine
