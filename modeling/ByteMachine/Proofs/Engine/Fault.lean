import ByteMachine.Proofs.Engine.Decoding
import ByteMachine.Proofs.Engine.Row

/-!
This module contains the step that ends in a fault: it leaves no trace but its report and the place
of the program counter.
-/

namespace ByteMachine

def EventKind.isDecoding : EventKind → Bool
  | .instructionParseBegun | .parameterParsed | .programCounterChanged => true
  | _ => false

def Operation.isEdit : Operation → Bool
  | .cycle | .step | .run _ => false
  | _ => true

namespace Engine

/--
The step ends in a fault. It leaves everything as it was but the program counter, which is at `stop`
afterwards, and reports the fault once, besides the bytes it takes.
-/
structure Aborts (e : Engine) (fault : Fault) (stop : UInt8) : Prop where
  result : e.step.result = .faulted e.nextByte fault
  engine : e.step.engine = { e with machine := { e.machine with programCounter := stop } }
  events : ∃ before after,
    e.step.events = before ++ .error e.nextByte e.machine.programCounter fault :: after ∧
      ∀ event ∈ before ++ after, event.kind.isDecoding

theorem Aborts.of_faulted {e : Engine} {opcode : UInt8} {fault other : Fault} {stop : UInt8}
    (aborts : e.Aborts other stop) (faulted : e.step.result = .faulted opcode fault) :
    opcode = e.nextByte ∧ fault = other := by
  rw [aborts.result] at faulted
  cases faulted
  exact ⟨rfl, rfl⟩

theorem isDecoding_of_mem_operandEvents {address : UInt8} {kinds : List OperandKind}
    {bytes : List UInt8} {event : Event} (mem : event ∈ operandEvents address kinds bytes) :
    event.kind.isDecoding := by
  induction kinds generalizing address bytes with
  | nil => cases mem
  | cons kind kinds ih =>
    cases bytes with
    | nil => cases mem
    | cons byte bytes =>
      rw [operandEvents, List.mem_cons, List.mem_cons] at mem
      rcases mem with rfl | rfl | mem
      . rfl
      . rfl
      . exact ih mem

theorem refusal?_eq_operandOutOfRange {kinds : List OperandKind} {bytes : List UInt8}
    {fault : Fault} (refused : refusal? kinds bytes = some fault) :
    ∃ byte kind, fault = .operandOutOfRange byte kind := by
  induction kinds generalizing bytes with
  | nil => cases refused
  | cons kind kinds ih =>
    cases bytes with
    | nil => cases refused
    | cons byte bytes =>
      rw [refusal?] at refused
      split at refused
      . exact ih refused
      . cases refused
        exact ⟨byte, kind, rfl⟩

def aborted (e : Engine) (p : Pending) (fault : Fault) (last : UInt8) (stays : Bool) :
    Reaction Outcome where
  result := .faulted p.opcode fault
  engine :=
    { e with
      machine := { e.machine with programCounter := if stays then last else last + 1 }
      pending := none }
  events := .error p.opcode p.position fault ::
    if stays then [] else [.programCounterChanged (last + 1)]
  log := [p.record (.error fault)]

theorem conclude_of_refused (e : Engine) {p : Pending} (last : UInt8) {fault : Fault}
    (refused : refusal? p.instruction.operands p.collected = some fault) :
    e.conclude p last = e.aborted p fault last false := by
  simp only [conclude, refused]
  rfl

theorem conclude_of_meets_error (e : Engine) {p : Pending} (last : UInt8) {fault : Fault}
    (legal : OperandKind.Accept p.instruction.operands p.collected)
    (meets : ((p.instruction.execute ⟨p.collected⟩).run
      (.start { e.machine with programCounter := last })).Meets
        { e.machine with programCounter := last } (.error fault)) :
    e.conclude p last = e.aborted p fault last (fault = .callStackUnderflow) := by
  obtain ⟨value, events, execution⟩ := meets
  simp only [Execution.start] at value events execution
  simp only [conclude, refusal?_of_accept legal, value, events, execution, aborted]
  cases decide (fault = Fault.callStackUnderflow) <;> rfl

theorem Aborts.of_conclude {e : Engine} {instruction : Instruction} {fault : Fault} {stays : Bool}
    (idle : e.pending = none) (bound : e.instructions.lookup e.nextByte = some instruction)
    (aborts : e.conclude (e.complete instruction) (e.lastByte instruction) =
      e.aborted (e.complete instruction) fault (e.lastByte instruction) stays) :
    e.Aborts fault (if stays then e.lastByte instruction else e.lastByte instruction + 1) := by
  have step := step_eq_conclude idle bound
  rw [aborts] at step
  constructor
  . rw [step]
    rfl
  . rw [step, idle]
    rfl
  . refine ⟨_, _, by rw [step]; rfl, ?_⟩
    intro event mem
    rw [List.mem_append, List.mem_cons] at mem
    rcases mem with (rfl | mem) | mem
    . rfl
    . exact isDecoding_of_mem_operandEvents mem
    . revert mem
      cases stays
      . simp +contextual [Event.kind, EventKind.isDecoding]
      . simp

theorem aborts_of_refused {e : Engine} {instruction : Instruction} {fault : Fault}
    (idle : e.pending = none) (bound : e.instructions.lookup e.nextByte = some instruction)
    (refused : refusal? instruction.operands (e.complete instruction).collected = some fault) :
    e.Aborts fault (e.machine.programCounter + UInt8.ofNat instruction.encodedLength) := by
  have aborts := Aborts.of_conclude idle bound
    (e.conclude_of_refused (e.lastByte instruction) refused)
  rw [if_neg Bool.false_ne_true, lastByte_add_one] at aborts
  exact aborts

theorem accept_of_not_refused {e : Engine} {instruction : Instruction}
    (accepted : refusal? instruction.operands (e.complete instruction).collected = none) :
    OperandKind.Accept instruction.operands (e.complete instruction).collected := by
  have valid := validate_eq (e.complete instruction)
  have operands : (e.complete instruction).instruction.operands = instruction.operands := rfl
  rw [operands, accepted] at valid
  exact Pending.accept_of_validate (e.length_collected_complete instruction) valid

theorem aborts_of_legal {e : Engine} {op : Opcode} {opcode : UInt8} {fault : Fault}
    (idle : e.pending = none)
    (bound : e.instructions.lookup e.nextByte = some op.instruction)
    (legal : OperandKind.Accept op.operands (e.complete op.instruction).collected)
    (faulted : e.step.result = .faulted opcode fault) :
    (fault = .callStackUnderflow → op = .ret) ∧
      e.Aborts fault
        (if fault = .callStackUnderflow then
          e.machine.programCounter
        else
          e.machine.programCounter + UInt8.ofNat op.instruction.encodedLength) := by
  let last := e.lastByte op.instruction
  let p := e.complete op.instruction
  have meets : Completion.Meets _ _ (op.row p.collected (last + 1) _) :=
    op.meets_row legal { e.machine with programCounter := last }
  cases row : op.row p.collected (last + 1) { e.machine with programCounter := last } with
  | ok effect =>
    rw [row] at meets
    have result := (conclude_of_legal e last (p := p) legal).1
    rw [step_eq_conclude idle bound, Reaction.result_after, result] at faulted
    have value : ((p.instruction.execute ⟨p.collected⟩).run _).value = .ok () := meets.1
    rw [Execution.start] at value
    rw [value] at faulted
    contradiction
  | error other =>
    rw [row] at meets
    have aborts := Aborts.of_conclude idle bound (e.conclude_of_meets_error last legal meets)
    obtain ⟨-, rfl⟩ := aborts.of_faulted faulted
    have ret : fault = .callStackUnderflow → op = .ret := by
      rintro rfl
      exact Opcode.ret_of_underflow row
    refine ⟨ret, ?_⟩
    rw [← lastByte_add_one]
    split
    . next underflow =>
      cases ret underflow
      -- a return has no operands, so its last byte is where it starts
      have only : last = e.machine.programCounter := UInt8.add_zero _
      rw [decide_eq_true underflow, if_pos rfl] at aborts
      rw [← only]
      exact aborts
    . next other =>
      rw [decide_eq_false other, if_neg Bool.false_ne_true] at aborts
      exact aborts

structure Stuck (e : Engine) : Prop where
  completes : e.cycle.result.completes
  engine : e.cycle.engine = e

theorem Stuck.step {e : Engine} (h : e.Stuck) : e.step.engine = e := by
  rw [step_of_completes h.completes, h.engine]

theorem Stuck.run {e : Engine} (h : e.Stuck) (n : Nat) : (e.run n).engine = e := by
  induction n with
  | zero => rfl
  | succ n ih =>
    rw [run_succ]
    simp only [Reaction.andThen, h.engine, ih]

theorem Stuck.performAll {e : Engine} (h : e.Stuck) {operations : List Operation}
    (alone : ∀ operation ∈ operations, operation.isEdit = false) :
    (e.performAll operations).engine = e := by
  induction operations with
  | nil => rfl
  | cons operation rest ih =>
    have unchanged : (e.perform operation).engine = e := by
      have untouched := alone operation List.mem_cons_self
      cases operation with
      | cycle => exact h.engine
      | step => exact h.step
      | run n => exact h.run n
      | _ => cases untouched
    rw [engine_performAll_cons, unchanged]
    apply ih
    intro operation mem
    exact alone operation (List.mem_cons_of_mem _ mem)

theorem stuck_of_ret {e : Engine} (idle : e.pending = none)
    (bound : e.instructions.lookup e.nextByte = some Opcode.ret.instruction)
    (unchanged : e.step.engine = e) : e.Stuck := by
  have ready : (e.opened Opcode.ret.instruction).isReady := rfl
  have cycle := cycle_of_consumes (.opcode idle bound)
  rw [proceed_of_ready _ ready] at cycle
  have completes : e.cycle.result.completes := by
    rw [cycle]
    simp
  refine ⟨completes, ?_⟩
  rw [← step_of_completes completes, unchanged]

theorem faulted_step_is_atomic {e : Engine} (idle : e.pending = none) :
    (e.instructions = .standard → ∀ opcode fault, e.step.result = .faulted opcode fault →
      ∃ op : Opcode, opcode = op.byte ∧ e.nextByte = opcode ∧
        e.Aborts fault
          (if fault = .callStackUnderflow then
            e.machine.programCounter
          else
            e.machine.programCounter + UInt8.ofNat op.instruction.encodedLength) ∧
        (fault = .callStackUnderflow →
          e.step.engine = e ∧
          ∀ operations, (∀ operation ∈ operations, operation.isEdit = false) →
            (e.performAll operations).engine.step = e.step)) ∧
    ∀ instruction fault, e.instructions.lookup e.nextByte = some instruction →
      refusal? instruction.operands
        (bytesAfter e.machine.memory e.machine.programCounter instruction.operands.length) =
          some fault →
      e.Aborts fault (e.machine.programCounter + UInt8.ofNat instruction.encodedLength) := by
  refine ⟨?_, fun _ _ bound refused => aborts_of_refused idle bound refused⟩
  intro standard opcode fault faulted
  cases bound : e.instructions.lookup e.nextByte with
  | none =>
    rw [step_eq_atomic idle, atomicStep_of_unbound bound] at faulted
    cases faulted
  | some instruction =>
    obtain ⟨op, byte, rfl⟩ := instruction_of_standard standard bound
    have aborts : (fault = .callStackUnderflow → op = .ret) ∧ e.Aborts fault
        (if fault = .callStackUnderflow then
          e.machine.programCounter
        else
          e.machine.programCounter + UInt8.ofNat op.instruction.encodedLength) := by
      -- illegal operands are refused before the routine begins, which then reports nothing
      cases refused : refusal? op.operands (e.complete op.instruction).collected with
      | none =>
        have legal : OperandKind.Accept op.instruction.operands _ := accept_of_not_refused refused
        exact aborts_of_legal idle bound legal faulted
      | some other =>
        have aborts := aborts_of_refused idle bound refused
        obtain ⟨-, rfl⟩ := aborts.of_faulted faulted
        obtain ⟨_, _, rfl⟩ := refusal?_eq_operandOutOfRange refused
        exact ⟨by simp, aborts⟩
    have opcode_eq := (aborts.2.of_faulted faulted).1
    refine ⟨op, opcode_eq.trans byte, opcode_eq.symm, aborts.2, ?_⟩
    intro underflow
    have unchanged : e.step.engine = e := by
      have engine := aborts.2.engine
      rw [if_pos underflow] at engine
      exact engine
    refine ⟨unchanged, ?_⟩
    -- the engine is as it was, so each further cycle meets the same return
    intro operations alone
    cases aborts.1 underflow
    rw [(stuck_of_ret idle bound unchanged).performAll alone]

theorem faulted_step_is_atomic_of_ret :
    let e := ((new {}).performAll [.setMemory 255 0x26, .setProgramCounter 255]).engine
    let f := ((withInstructions {} patient).performAll
      [.setMemory 255 0x80, .setMemory 1 9, .setProgramCounter 255]).engine
    e.pending = none ∧ e.instructions = .standard ∧
      e.step.result = .faulted 0x26 .callStackUnderflow ∧
      e.step.engine = e ∧
      (e.performAll [.cycle, .run 3]).engine.step = e.step ∧
      f.pending = none ∧
      f.Aborts (.operandOutOfRange 9 .register) 3 := by
  intro e f
  have idle : e.pending = none := rfl
  have standard : e.instructions = .standard := rfl
  have faulted : e.step.result = .faulted 0x26 .callStackUnderflow := rfl
  obtain ⟨op, -, -, -, stuck⟩ := (faulted_step_is_atomic idle).1 standard _ _ faulted
  obtain ⟨unchanged, repeats⟩ := stuck rfl
  have idle' : f.pending = none := rfl
  have refused : refusal? [.constant, .register, .constant]
      (bytesAfter f.machine.memory f.machine.programCounter 3) =
        some (.operandOutOfRange 9 .register) := by
    decide +kernel
  have aborts : f.Aborts _ (f.machine.programCounter + UInt8.ofNat 4) :=
    (faulted_step_is_atomic idle').2 _ _ rfl refused
  have stop : f.machine.programCounter + UInt8.ofNat 4 = 3 := by decide +kernel
  rw [stop] at aborts
  refine ⟨idle, standard, faulted, unchanged, repeats _ ?_, idle', aborts⟩
  decide

end Engine
end ByteMachine
