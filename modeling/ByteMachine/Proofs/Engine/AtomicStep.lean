import ByteMachine.Proofs.Engine.History
import ByteMachine.Proofs.Engine.Step

/-!
This module contains the step as one action: all bytes of the instruction are taken from memory at
once, and nothing is ever pending. The engine, which takes them cycle by cycle, steps the same way.
-/

namespace ByteMachine
namespace Engine

def bytesAfter (memory : Memory) (address : UInt8) (n : Nat) : List UInt8 :=
  (List.range n).map fun i => memory.get (address + UInt8.ofNat (i + 1))

def refusal? : List OperandKind → List UInt8 → Option Fault
  | kind :: kinds, byte :: bytes =>
    if kind.accepts byte then refusal? kinds bytes else some (.operandOutOfRange byte kind)
  | _, _ => none

def operandEvents (address : UInt8) : List OperandKind → List UInt8 → List Event
  | kind :: kinds, byte :: bytes =>
    .programCounterChanged (address + 1) :: .parameterParsed kind byte (address + 1) ::
      operandEvents (address + 1) kinds bytes
  | _, _ => []

/--
Executes an instruction, once, whose last byte is at an address. The program counter is at that
byte when the routine starts and behind it in the end, unless the routine suppressed the advance.
-/
def conclude (e : Engine) (p : Pending) (last : UInt8) : Reaction Outcome :=
  let start : Execution :=
    { machine := { e.machine with programCounter := last }
      nextAddress := last + 1
      advanceSuppressed := false }
  let done : Completion Unit :=
    match refusal? p.instruction.operands p.collected with
    | some fault => { value := .error fault, execution := start }
    | none => (p.instruction.execute ⟨p.collected⟩).run start
  let suppressed := done.execution.advanceSuppressed
  let left := done.execution.machine
  let moved := if suppressed then left else { left with programCounter := last + 1 }
  { result := p.outcome done.value
    engine := { e with machine := moved, pending := none }
    events := done.events ++ p.closing done.value ::
      if suppressed then [] else [.programCounterChanged (last + 1)]
    log := [p.record done.value] }

/--
The step as one action.
-/
def atomicStep (e : Engine) : Reaction Outcome :=
  let address := e.machine.programCounter
  match e.instructions.lookup e.nextByte with
  | none =>
    { e.skip with
      engine := { e with machine := { e.machine with programCounter := address + 1 } } }
  | some instruction =>
    let n := instruction.operands.length
    let operands := bytesAfter e.machine.memory address n
    let p : Pending := { e.opened instruction with collected := operands }
    (e.conclude p (address + UInt8.ofNat n)).after
      (.instructionParseBegun e.nextByte address ::
        operandEvents address instruction.operands operands)

theorem bytesAfter_succ (memory : Memory) (address : UInt8) (n : Nat) :
    bytesAfter memory address (n + 1) =
      memory.get (address + 1) :: bytesAfter memory (address + 1) n := by
  simp only [bytesAfter, List.range_succ_eq_map, List.map_cons, List.map_map]
  congr 1
  apply List.map_congr_left
  intro i _
  simp only [Function.comp_apply, Nat.succ_eq_add_one, add_ofNat_succ]

@[simp]
theorem operandEvents_nil (address : UInt8) (kinds : List OperandKind) :
    operandEvents address kinds [] = [] := by
  cases kinds <;> rfl

theorem validate_eq (p : Pending) :
    p.validate =
      match refusal? p.instruction.operands p.collected with
      | some fault => .error fault
      | none => .ok () := by
  simp only [Pending.validate]
  generalize p.instruction.operands = kinds
  generalize p.collected = bytes
  induction kinds generalizing bytes with
  | nil => rfl
  | cons kind kinds ih =>
    cases bytes with
    | nil => rfl
    | cons byte bytes =>
      simp only [List.zip_cons_cons, List.find?_cons, refusal?]
      cases h : kind.accepts byte with
      | true => simpa using ih bytes
      | false => simp

theorem programCounter_execute (p : Pending) (m : Machine)
    (h : (p.execute m).execution.advanceSuppressed = false) :
    (p.execute m).execution.machine.programCounter = m.programCounter := by
  simp only [Pending.execute] at h ⊢
  split
  . next valid =>
    rw [valid] at h
    exact Routine.programCounter_run _ _ h
  . rfl

theorem execute_eq_conclude {e : Engine} {p : Pending} {last : UInt8}
    (place : e.machine.programCounter = last) : e.execute p = e.conclude p last := by
  subst place
  have same : (match refusal? p.instruction.operands p.collected with
      | some fault => { value := .error fault, execution := .start e.machine }
      | none => (p.instruction.execute ⟨p.collected⟩).run (.start e.machine) : Completion Unit) =
      p.execute e.machine := by
    rw [Pending.execute, validate_eq]
    cases refusal? p.instruction.operands p.collected <;> rfl
  have moves := programCounter_execute p e.machine
  simp only [Execution.start] at same
  simp only [conclude, same, execute]
  cases suppressed : (p.execute e.machine).execution.advanceSuppressed with
  | true => simp
  | false => simp [advance, Machine.advance, moves suppressed]

@[simp]
theorem conclude_await (e : Engine) (p q : Pending) (last : UInt8) :
    (e.await q).conclude p last = e.conclude p last := rfl

theorem consumes_of_missing {n : Nat} {e : Engine} {p : Pending} {address : UInt8}
    (collecting : e.pending = some p) (missing : p.missing = n + 1)
    (place : e.machine.programCounter = address + 1) :
    let byte := e.machine.memory.get (address + 1)
    ∃ kind,
      p.instruction.operands.drop p.collected.length =
        kind :: p.instruction.operands.drop (p.collect byte).collected.length ∧
      e.Consumes (p.collect byte) (.parameterParsed kind byte (address + 1))
        (.operandCollected byte) := by
  have bound : p.collected.length < p.instruction.operands.length := by
    simp only [Pending.missing, Pending.required] at missing
    omega
  refine ⟨p.instruction.operands[p.collected.length], ?_, ?_⟩
  . simp [Pending.collect]
  . have consumes := Consumes.operand collecting (List.getElem?_eq_getElem bound)
    rw [nextByte, place] at consumes
    exact consumes

theorem step_of_missing {n : Nat} {e : Engine} {p : Pending} {address : UInt8}
    (collecting : e.pending = some p) (missing : p.missing = n + 1)
    (place : e.machine.programCounter = address + 1) :
    e.step.after [.programCounterChanged (address + 1)] =
      (e.conclude
        { p with collected := p.collected ++ bytesAfter e.machine.memory address (n + 1) }
        (address + UInt8.ofNat (n + 1))).after
        (operandEvents address (p.instruction.operands.drop p.collected.length)
          (bytesAfter e.machine.memory address (n + 1))) := by
  induction n generalizing e p address with
  | zero =>
    obtain ⟨kind, kinds, consumes⟩ := consumes_of_missing collecting missing place
    have ready : (p.collect (e.machine.memory.get (address + 1))).isReady := by
      simp [Pending.isReady, missing]
    have last : bytesAfter e.machine.memory (address + 1) 0 = [] := rfl
    rw [step_of_ready consumes ready, execute_eq_conclude place, kinds, bytesAfter_succ, last,
      operandEvents, operandEvents_nil, Reaction.after_after]
    rfl
  | succ n ih =>
    obtain ⟨kind, kinds, consumes⟩ := consumes_of_missing collecting missing place
    have short : (p.collect (e.machine.memory.get (address + 1))).isReady = false := by
      simp [Pending.isReady, missing]
    -- the rest of the step starts from the engine after this cycle, one operand further
    have onward :
        (e.await (p.collect (e.machine.memory.get (address + 1)))).machine.programCounter =
          address + 1 + 1 := by
      simp [place]
    have rest := ih (e := e.await (p.collect (e.machine.memory.get (address + 1)))) rfl
      (by simp [missing]) onward
    rw [memory_await, conclude_await] at rest
    rw [step_of_not_ready consumes short, kinds, bytesAfter_succ e.machine.memory address (n + 1),
      operandEvents, add_ofNat_succ address (n + 1), place]
    have announced := congrArg (Reaction.after · [.programCounterChanged (address + 1),
      .parameterParsed kind (e.machine.memory.get (address + 1)) (address + 1)]) rest
    simpa [Pending.collect] using announced

theorem atomicStep_of_unbound {e : Engine} (unbound : e.instructions.lookup e.nextByte = none) :
    e.atomicStep = e.skip := by
  simp only [atomicStep, unbound]
  rfl

theorem atomicStep_of_bound {e : Engine} {instruction : Instruction}
    (bound : e.instructions.lookup e.nextByte = some instruction) :
    e.atomicStep =
      (e.conclude
        { e.opened instruction with
          collected := bytesAfter e.machine.memory e.machine.programCounter
            instruction.operands.length }
        (e.machine.programCounter + UInt8.ofNat instruction.operands.length)).after
        (.instructionParseBegun e.nextByte e.machine.programCounter ::
          operandEvents e.machine.programCounter instruction.operands
            (bytesAfter e.machine.memory e.machine.programCounter
              instruction.operands.length)) := by
  simp only [atomicStep, bound]

theorem step_eq_atomic {e : Engine} (idle : e.pending = none) : e.step = e.atomicStep := by
  cases bound : e.instructions.lookup e.nextByte with
  | none =>
    have cycle := cycle_of_unbound idle bound
    rw [atomicStep_of_unbound bound, step_of_completes, cycle]
    rw [cycle]
    rfl
  | some instruction =>
    have consumes := Consumes.opcode idle bound
    rw [atomicStep_of_bound bound]
    cases length : instruction.operands.length with
    | zero =>
      have ready : (e.opened instruction).isReady := by
        simp [Pending.isReady, length]
      have place : e.machine.programCounter = e.machine.programCounter + UInt8.ofNat 0 := by
        simp
      rw [step_of_ready consumes ready, execute_eq_conclude place, List.length_eq_zero_iff.1 length]
      rfl
    | succ n =>
      have missing : (e.opened instruction).missing = n + 1 := by
        simp [length]
      have short : (e.opened instruction).isReady = false := by
        simp [Pending.isReady, missing]
      have rest := step_of_missing (e.pending_await _) missing (e.programCounter_await _)
      have announced := congrArg
        (Reaction.after · [.instructionParseBegun e.nextByte e.machine.programCounter]) rest
      rw [step_of_not_ready consumes short]
      simpa [opened] using announced

def complete (e : Engine) (instruction : Instruction) : Pending :=
  { e.opened instruction with
    collected := bytesAfter e.machine.memory e.machine.programCounter instruction.operands.length }

def lastByte (e : Engine) (instruction : Instruction) : UInt8 :=
  e.machine.programCounter + UInt8.ofNat instruction.operands.length

theorem lastByte_add_one (e : Engine) (instruction : Instruction) :
    e.lastByte instruction + 1 =
      e.machine.programCounter + UInt8.ofNat instruction.encodedLength := by
  rw [lastByte, Instruction.encodedLength, Nat.add_comm, UInt8.ofNat_add, UInt8.add_assoc]
  rfl

theorem length_collected_complete (e : Engine) (instruction : Instruction) :
    (e.complete instruction).collected.length = instruction.operands.length := by
  simp [complete, bytesAfter]

theorem step_eq_conclude {e : Engine} {instruction : Instruction} (idle : e.pending = none)
    (bound : e.instructions.lookup e.nextByte = some instruction) :
    e.step = (e.conclude (e.complete instruction) (e.lastByte instruction)).after
      (.instructionParseBegun e.nextByte e.machine.programCounter ::
        operandEvents e.machine.programCounter instruction.operands
          (e.complete instruction).collected) := by
  rw [step_eq_atomic idle, atomicStep_of_bound bound]
  rfl

@[simp]
theorem pending_atomicStep {e : Engine} (idle : e.pending = none) :
    e.atomicStep.engine.pending = none := by
  cases bound : e.instructions.lookup e.nextByte with
  | none =>
    rw [atomicStep_of_unbound bound]
    exact idle
  | some instruction =>
    rw [atomicStep_of_bound bound]
    rfl

theorem stepLength_of_idle {e : Engine} (idle : e.pending = none) :
    e.stepLength =
      match e.instructions.lookup e.nextByte with
      | none => 1
      | some instruction => 1 + instruction.operands.length := by
  simp only [stepLength, idle]
  rfl

theorem run_of_idle {e : Engine} (idle : e.pending = none) {m : Nat} (enough : e.stepLength ≤ m) :
    e.run m =
      let rest := e.atomicStep.engine.run (m - e.stepLength)
      { e.atomicStep.andThen (run (m - e.stepLength)) with result := 1 + rest.result } := by
  have whole := e.completesIn_step.run_eq
  rw [step_eq_atomic idle] at whole
  obtain ⟨n, rfl⟩ := Nat.exists_eq_add_of_le enough
  rw [run_add, whole, Nat.add_sub_cancel_left]
  rfl

theorem Reachable.stepLength_eq {e : Engine} (h : e.Reachable) {p : Pending}
    (collecting : e.pending = some p) :
    p.collected.length < p.required ∧ e.stepLength = p.required - p.collected.length := by
  have bound := (h.decoding p collecting).length_collected
  refine ⟨bound, ?_⟩
  simp only [stepLength, collecting, Pending.missing]
  omega

theorem engine_refines_atomicStep (e : Engine) :
    (e.pending = none →
      e.step = e.atomicStep ∧
      e.step.engine.pending = none ∧
      CompletesIn
        (match e.instructions.lookup e.nextByte with
        | none => 1
        | some instruction => 1 + instruction.operands.length)
        e e.step ∧
      ∀ m,
        if m < e.stepLength then
          (e.run m).result = 0 ∧
          (e.run m).engine.machine =
            { e.machine with programCounter := e.machine.programCounter + UInt8.ofNat m }
        else
          e.run m =
            let rest := e.atomicStep.engine.run (m - e.stepLength)
            { e.atomicStep.andThen (run (m - e.stepLength)) with result := 1 + rest.result }) ∧
    (e.Reachable → ∀ p, e.pending = some p →
      p.collected.length < p.required ∧
      CompletesIn (p.required - p.collected.length) e e.step) ∧
    ∀ m, e.run m =
      { result := (e.cycles m).countP (·.result.completes)
        engine := ((e.cycles m).getLast?.map (·.engine)).getD e
        events := (e.cycles m).flatMap (·.events)
        log := (e.cycles m).flatMap (·.log) } := by
  refine ⟨?_, ?_, fun m => e.run_eq_cycles m⟩
  . intro idle
    have length := e.completesIn_step
    refine ⟨step_eq_atomic idle, ?_, ?_, ?_⟩
    . rw [step_eq_atomic idle]
      exact pending_atomicStep idle
    . rw [← stepLength_of_idle idle]
      exact length
    . intro m
      split
      . next few => exact length.run_lt few
      . next enough => exact run_of_idle idle (Nat.le_of_not_lt enough)
  . intro reachable p collecting
    have length := reachable.stepLength_eq collecting
    rw [← length.2]
    exact ⟨length.1, e.completesIn_step⟩

/--
An engine whose next instruction, the addition of five to R2, goes round the end of memory.
-/
def straddling : Engine :=
  ((new {}).performAll [.setMemory 255 0x11, .setMemory 0 5, .setMemory 1 2,
    .setProgramCounter 255]).engine

theorem straddling_refines_atomicStep :
    straddling.pending = none ∧
      straddling.step = straddling.atomicStep ∧
      CompletesIn 3 straddling straddling.step ∧
      straddling.step.engine.machine.programCounter = 2 ∧
      straddling.step.engine.machine.register ⟨2⟩ = 5 ∧
      straddling.cycle.engine.Reachable ∧
      straddling.cycle.engine.pending.isSome ∧
      CompletesIn 2 straddling.cycle.engine straddling.cycle.engine.step := by
  have idle : straddling.pending = none := rfl
  have refines := (engine_refines_atomicStep straddling).1 idle
  have reachable : straddling.cycle.engine.Reachable :=
    ⟨{}, .standard, [.setMemory 255 0x11, .setMemory 0 5, .setMemory 1 2,
      .setProgramCounter 255, .cycle], rfl⟩
  have rest := (engine_refines_atomicStep straddling.cycle.engine).2.1 reachable
  refine ⟨idle, refines.1, refines.2.2.1, ?_, ?_, reachable, ?_, ?_⟩
  . rw [refines.1]
    decide +kernel
  . rw [refines.1]
    decide +kernel
  . decide +kernel
  . exact (rest _ rfl).2

end Engine
end ByteMachine
