import ByteMachine.Proofs.Engine.AtomicStep
import ByteMachine.Proofs.Instruction

/-!
This module contains memories whose instructions lead to each other only: at each of a set of
addresses stands an instruction that leaves memory alone and goes on at one of these addresses. An
engine that starts there stays there.
-/

namespace ByteMachine
namespace Engine

variable {inside : UInt8 → Prop} {memory : Memory}

structure Stands (inside : UInt8 → Prop) (memory : Memory) (address : UInt8) (op : Opcode) :
    Prop where
  opcode : memory.get address = op.byte
  legal : OperandKind.Accept op.operands (bytesAfter memory address op.operands.length)
  harmless : op.writesMemory = false
  target : ∀ a, op.targetIndex?.bind ((bytesAfter memory address op.operands.length)[·]?) = some a →
    inside a
  next : inside (address + UInt8.ofNat op.operands.length + 1)

def Closed (inside : UInt8 → Prop) (memory : Memory) : Prop :=
  ∀ address, inside address → ∃ op, Stands inside memory address op

structure Confined (inside : UInt8 → Prop) (memory : Memory) (e : Engine) : Prop where
  standard : e.instructions = .standard
  idle : e.pending = none
  memory_eq : e.machine.memory = memory
  programCounter : inside e.machine.programCounter
  frames : ∀ frame ∈ e.machine.callStack.frames, inside frame

/--
What holds throughout the execution of an instruction. A return that is refused stays at the
address of its only byte, and no other instruction suppresses the advance without a jump.
-/
structure Enclosed (inside : UInt8 → Prop) (memory : Memory) (op : Opcode) (x : Execution) :
    Prop where
  memory_eq : x.machine.memory = memory
  frames : ∀ frame ∈ x.machine.callStack.frames, inside frame
  next : inside x.nextAddress
  programCounter : x.advanceSuppressed ∨ op = .ret → inside x.machine.programCounter

theorem Enclosed.jump {op : Opcode} {x : Execution} (h : Enclosed inside memory op x)
    {target : UInt8} (known : inside target) :
    Enclosed inside memory op (x.jump target).execution :=
  ⟨h.memory_eq, h.frames, h.next, fun _ => known⟩

theorem Enclosed.perform {op : Opcode} {ops : Operands} {x : Execution}
    (h : Enclosed inside memory op x) (harmless : op.writesMemory = false)
    (target : ∀ a, op.targetIndex?.bind (ops.bytes[·]?) = some a → inside a) {action : Action}
    (permits : op.Permits ops action) :
    Enclosed inside memory op (x.perform action).execution := by
  cases action with
  | setRegister r value => exact ⟨h.memory_eq, h.frames, h.next, h.programCounter⟩
  | writeVideoMemory address value => exact ⟨h.memory_eq, h.frames, h.next, h.programCounter⟩
  | publish event => exact h
  | writeMemory address value =>
    simp only [Opcode.Permits, harmless] at permits
    contradiction
  | setCarry value =>
    simp only [Execution.perform]
    split
    . exact h
    . exact ⟨h.memory_eq, h.frames, h.next, h.programCounter⟩
  | jump address => exact h.jump (target address permits.2)
  | call address =>
    simp only [Execution.perform]
    split
    . next machine pushed =>
      obtain ⟨callStack, grown, rfl⟩ := Machine.pushReturn_eq_ok_iff.1 pushed
      obtain ⟨-, -, frames⟩ := CallStack.push_eq_ok_iff.1 grown
      have called : Enclosed inside memory op
          { x with machine := { x.machine with callStack } } := by
        refine ⟨h.memory_eq, ?_, h.next, h.programCounter⟩
        intro frame mem
        rw [frames, List.mem_append, List.mem_singleton] at mem
        rcases mem with mem | rfl
        . exact h.frames frame mem
        . exact h.next
      exact called.jump (target address permits.2)
    . exact h
  | ret =>
    have ret : op = .ret := permits
    simp only [Execution.perform]
    split
    . next address machine popped =>
      obtain ⟨callStack, shrunk, rfl⟩ := Machine.popReturn_eq_ok_iff.1 popped
      have frames := CallStack.frames_of_pop shrunk
      have returned : Enclosed inside memory op
          { x with machine := { x.machine with callStack } } := by
        refine ⟨h.memory_eq, ?_, h.next, h.programCounter⟩
        intro frame mem
        exact h.frames frame (by simp [frames, mem])
      exact returned.jump (h.frames address (by simp [frames]))
    . -- with nothing to take away the return stays where it stands
      exact ⟨h.memory_eq, h.frames, h.next, fun _ => h.programCounter (.inr ret)⟩
  | selectBank bank =>
    simp only [Execution.perform, Execution.tryChange]
    split
    . next machine selected =>
      obtain ⟨-, rfl⟩ := Machine.selectBank_eq_ok_iff.1 selected
      exact ⟨h.memory_eq, h.frames, h.next, h.programCounter⟩
    . exact h
  | selectPalette palette =>
    simp only [Execution.perform, Execution.tryChange]
    split
    . next machine selected =>
      obtain ⟨-, rfl⟩ := Machine.selectPalette_eq_ok_iff.1 selected
      exact ⟨h.memory_eq, h.frames, h.next, h.programCounter⟩
    . exact h

theorem Enclosed.run {op : Opcode} {ops : Operands} {x : Execution}
    (h : Enclosed inside memory op x) (harmless : op.writesMemory = false)
    (legal : OperandKind.Accept op.operands ops.bytes)
    (target : ∀ a, op.targetIndex?.bind (ops.bytes[·]?) = some a → inside a) :
    Enclosed inside memory op ((op.execute ops).run x).execution ∧
      ∀ fault, ((op.execute ops).run x).value = .error fault → op.MayRaise fault := by
  have run := Opcode.run_execute
    (R := fun x _ y => Enclosed inside memory op x → Enclosed inside memory op y)
    (fun _ h => h) (fun _ _ _ _ _ first second h => second (first h))
    (fun _ _ permits h => h.perform harmless target permits) legal x
  exact ⟨run.1 h, run.2⟩

theorem refusal?_of_accept {p : Pending}
    (legal : OperandKind.Accept p.instruction.operands p.collected) :
    refusal? p.instruction.operands p.collected = none := by
  have valid := validate_eq p
  rw [Pending.validate_of_accept legal] at valid
  split at valid
  . contradiction
  . assumption

theorem conclude_of_legal (e : Engine) {p : Pending} (last : UInt8)
    (legal : OperandKind.Accept p.instruction.operands p.collected) :
    let done := (p.instruction.execute ⟨p.collected⟩).run
      { machine := { e.machine with programCounter := last }
        nextAddress := last + 1
        advanceSuppressed := false }
    (e.conclude p last).result = p.outcome done.value ∧
      (e.conclude p last).engine =
        { e with
          pending := none
          machine :=
            if done.execution.advanceSuppressed then
              done.execution.machine
            else
              { done.execution.machine with programCounter := last + 1 } } := by
  simp only [conclude, refusal?_of_accept legal]
  exact ⟨trivial, trivial⟩

theorem Confined.conclude {e : Engine} (h : Confined inside memory e) {op : Opcode}
    (stands : Stands inside memory e.machine.programCounter op) {p : Pending}
    (opcode : p.opcode = op.byte) (instruction : p.instruction = op.instruction)
    (collected : p.collected =
      bytesAfter memory e.machine.programCounter op.operands.length) :
    let last := e.machine.programCounter + UInt8.ofNat op.operands.length
    Confined inside memory (e.conclude p last).engine ∧
      ((e.conclude p last).result = .executed op.byte ∨
        ∃ fault, op.MayRaise fault ∧ (e.conclude p last).result = .faulted op.byte fault) := by
  intro last
  have legal : OperandKind.Accept op.operands (Operands.mk p.collected).bytes := by
    rw [collected]
    exact stands.legal
  have target : ∀ a, op.targetIndex?.bind ((Operands.mk p.collected).bytes[·]?) = some a →
      inside a := by
    rw [collected]
    exact stands.target
  have start : Enclosed inside memory op
      { machine := { e.machine with programCounter := last }
        nextAddress := last + 1
        advanceSuppressed := false } := by
    refine ⟨h.memory_eq, h.frames, stands.next, ?_⟩
    rintro (suppressed | rfl)
    . contradiction
    . -- a return has no operands, so its last byte is where it starts
      have only : last = e.machine.programCounter := UInt8.add_zero _
      rw [only]
      exact h.programCounter
  -- the routine keeps to known addresses, and the advance behind it goes to the one in `start`
  have ends := start.run stands.harmless legal target
  obtain ⟨result, engine⟩ := conclude_of_legal e last (p := p) (by rw [instruction]; exact legal)
  rw [instruction] at result engine
  refine ⟨?_, ?_⟩
  . rw [engine]
    refine ⟨h.standard, rfl, ?_, ?_, ?_⟩
    . dsimp only
      split <;> exact ends.1.memory_eq
    . dsimp only
      split
      . next suppressed => exact ends.1.programCounter (.inl suppressed)
      . exact stands.next
    . intro frame mem
      apply ends.1.frames
      dsimp only at mem
      split at mem <;> exact mem
  . rw [result, ← opcode]
    cases value : ((op.instruction.execute ⟨p.collected⟩).run _).value with
    | ok => exact .inl rfl
    | error fault => exact .inr ⟨fault, ends.2 fault value, rfl⟩

theorem Confined.step (closed : Closed inside memory) {e : Engine} (h : Confined inside memory e) :
    Confined inside memory e.step.engine ∧
      ∃ op : Opcode, e.step.result = .executed op.byte ∨
        ∃ fault, op.MayRaise fault ∧ e.step.result = .faulted op.byte fault := by
  obtain ⟨op, stands⟩ := closed e.machine.programCounter h.programCounter
  have opcode : e.nextByte = op.byte := by rw [nextByte, h.memory_eq, stands.opcode]
  have bound : e.instructions.lookup e.nextByte = some op.instruction := by
    rw [h.standard, opcode, InstructionSet.lookup_standard_byte]
  rw [step_eq_atomic h.idle, atomicStep_of_bound bound]
  let p : Pending :=
    { e.opened op.instruction with
      collected := bytesAfter e.machine.memory e.machine.programCounter op.operands.length }
  have collected : p.collected = bytesAfter memory e.machine.programCounter op.operands.length := by
    rw [← h.memory_eq]
  have ends := h.conclude (p := p) stands opcode rfl collected
  exact ⟨ends.1, op, ends.2⟩

theorem Confined.steps (closed : Closed inside memory) {e : Engine} (h : Confined inside memory e)
    (n : Nat) : Confined inside memory (e.performAll (List.replicate n .step)).engine := by
  induction n generalizing e with
  | zero => exact h
  | succ n ih =>
    rw [List.replicate_succ, engine_performAll_cons]
    exact ih (h.step closed).1

theorem get_of_split {before after : List UInt8} {byte address : UInt8}
    (place : address.toNat = before.length) :
    (Memory.ofBytes (before ++ byte :: after)).get address = byte := by
  simp [place]

theorem bytesAfter_of_split {before : List UInt8} (byte : UInt8) (operands after : List UInt8)
    {address : UInt8} (place : address.toNat = before.length)
    (fits : (before ++ byte :: operands).length ≤ 256) :
    bytesAfter (Memory.ofBytes (before ++ byte :: (operands ++ after))) address operands.length =
      operands := by
  induction operands generalizing before byte address with
  | nil => rfl
  | cons operand operands ih =>
    have fits' : (before ++ [byte] ++ operand :: operands).length ≤ 256 := by simpa using fits
    have place' : (address + 1).toNat = (before ++ [byte]).length := by
      have : before.length + 1 < 256 := by
        simp only [List.length_append, List.length_cons] at fits
        omega
      rw [UInt8.toNat_add, place, List.length_append, List.length_singleton]
      exact Nat.mod_eq_of_lt this
    have onward : before ++ byte :: (operand :: operands ++ after) =
        before ++ [byte] ++ operand :: (operands ++ after) := by
      simp
    rw [onward, List.length_cons, bytesAfter_succ, get_of_split place', ih operand place' fits']

end Engine
end ByteMachine
