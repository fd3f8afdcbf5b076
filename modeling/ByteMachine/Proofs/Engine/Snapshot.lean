import ByteMachine.Engine.Snapshot
import ByteMachine.Proofs.Engine.History

/-!
This module contains the reason why a host need not know how an engine came to be as it is: engines
that were built alike and show the same snapshot are the same, so they go on in the same way.
-/

namespace ByteMachine
namespace Engine

section Snapshot

variable {e f : Engine} (same : e.snapshot = f.snapshot)
include same

theorem machine_eq_of_snapshot (config : e.config = f.config) : e.machine = f.machine := by
  have memory := Memory.toList_inj.1 (congrArg Snapshot.memory same)
  have videoMemory := Memory.toList_inj.1 (congrArg Snapshot.videoMemory same)
  have registers := RegisterFile.toList_inj.1 (congrArg Snapshot.registers same)
  have callStack := CallStack.eq_of_frames (congrArg Config.callStackDepth config)
    (congrArg Snapshot.callStack same)
  have bank := Selector.ext (congrArg Config.bankCount config) (congrArg Snapshot.bank same)
  have palette := Selector.ext (congrArg Config.paletteCount config)
    (congrArg Snapshot.palette same)
  exact Machine.ext memory videoMemory registers (congrArg Snapshot.programCounter same)
    (congrArg Snapshot.carry same) callStack bank palette

theorem pending_eq_of_snapshot (instructions : e.instructions = f.instructions)
    (left : e.Decoding) (right : f.Decoding) : e.pending = f.pending := by
  have shown : e.pending.map Pending.snapshot = f.pending.map Pending.snapshot :=
    congrArg Snapshot.pending same
  cases first : e.pending with
  | none =>
    rw [first] at shown
    simpa [eq_comm] using shown
  | some p =>
    cases second : f.pending with
    | none => simp [first, second] at shown
    | some q =>
      rw [first, second, Option.map_some, Option.map_some, Option.some.injEq] at shown
      have opcode : p.opcode = q.opcode := congrArg PendingSnapshot.opcode shown
      have position : p.position = q.position := congrArg PendingSnapshot.position shown
      have collected : p.collected = q.collected := congrArg PendingSnapshot.collected shown
      have instruction : p.instruction = q.instruction := by
        have bound := (left p first).lookup_opcode
        rw [instructions, opcode, (right q second).lookup_opcode] at bound
        exact (Option.some.inj bound).symm
      exact congrArg some (Pending.ext opcode position instruction collected)

end Snapshot

structure Sight where
  answer : Answer
  events : List Event
  snapshot : Snapshot
deriving DecidableEq

def watch : List Operation → Engine → List Sight
  | [], _ => []
  | operation :: rest, e =>
    let done := e.perform operation
    ⟨done.result, done.events, done.engine.snapshot⟩ :: watch rest done.engine

theorem snapshot_determines_future (config : Config) (set : InstructionSet)
    (first second : List Operation) :
    let e := ((withInstructions config set).performAll first).engine
    let f := ((withInstructions config set).performAll second).engine
    e.snapshot = f.snapshot → ∀ operations, e.watch operations = f.watch operations := by
  intro e f same operations
  obtain ⟨left, leftConfig⟩ := setup_of_history config set first
  obtain ⟨right, rightConfig⟩ := setup_of_history config set second
  have machine : e.machine = f.machine :=
    machine_eq_of_snapshot same (leftConfig.trans rightConfig.symm)
  have instructions : e.instructions = f.instructions := left.trans right.symm
  have pending : e.pending = f.pending := by
    apply pending_eq_of_snapshot same instructions
    . exact Reachable.decoding ⟨config, set, first, rfl⟩
    . exact Reachable.decoding ⟨config, set, second, rfl⟩
  have : e = f := Engine.ext machine instructions pending
  rw [this]

theorem snapshot_determines_future_of_load :
    let e := ((new {}).performAll
      [.setMemory 0 0x01, .setMemory 1 9, .setMemory 2 3, .cycle]).engine
    let f := ((new {}).performAll
      [.setRegister ⟨3⟩ 7, .step, .load [0x01, 9, 3], .cycle]).engine
    e.snapshot = f.snapshot ∧ e.pending.isSome ∧
      e.watch [.step, .setProgramCounter 0, .run 3] =
        f.watch [.step, .setProgramCounter 0, .run 3] ∧
      (e.watch [.step]).map Sight.answer = [.outcome (.executed 0x01)] := by
  have same : ((new {}).performAll
      [.setMemory 0 0x01, .setMemory 1 9, .setMemory 2 3, .cycle]).engine.snapshot =
      ((new {}).performAll
        [.setRegister ⟨3⟩ 7, .step, .load [0x01, 9, 3], .cycle]).engine.snapshot := by
    decide +kernel
  refine ⟨same, rfl, ?_, rfl⟩
  exact snapshot_determines_future {} .standard _ _ same _

end Engine
end ByteMachine
