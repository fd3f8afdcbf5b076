import ByteMachine.Proofs.Engine.LoadImage
import ByteMachine.Proofs.Engine.Snapshot

/-!
This module contains the reason why a program need not care what ran before it: loading a program or
an image leaves nothing of what the engine was, neither in its state nor in what it tells.
-/

namespace ByteMachine
namespace Engine

theorem load_eq_of_sameSetup {e f : Engine} (same : SameSetup e f) (program : List UInt8) :
    f.load program = e.load program := by
  obtain ⟨machine, instructions, pending⟩ := e
  obtain ⟨machine', instructions', pending'⟩ := f
  obtain ⟨rfl, config⟩ := same
  have reset : machine'.reset = machine.reset := by
    rw [Machine.reset_eq, Machine.reset_eq]
    exact congrArg Machine.new config
  rw [load, reset, load]

theorem loadImage_eq_of_sameSetup {e f : Engine} (same : SameSetup e f) (image : Image) :
    f.loadImage image = e.loadImage image := by
  simp only [loadImage, load_eq_of_sameSetup same]

theorem watch_cons_of_perform_eq {operation : Operation} {e f : Engine}
    (same : e.perform operation = f.perform operation) (later : List Operation) :
    e.watch (operation :: later) = f.watch (operation :: later) := by
  simp only [watch, same]

theorem memory_load (program : List UInt8) (e : Engine) :
    (e.load program).engine.machine.memory = Memory.ofBytes program := rfl

theorem events_load (program : List UInt8) (e : Engine) :
    (e.load program).events =
      .reset ::
        (program.take 256).mapIdx (fun i value => .memoryChanged (UInt8.ofNat i) value) ++
          [.programCounterChanged 0] := by
  rw [load, Memory.map_zip_addresses, List.take_take]
  rfl

theorem load_forgets_history (config : Config) (set : InstructionSet)
    (history : List Operation) :
    let old := ((withInstructions config set).performAll history).engine
    let fresh := withInstructions config set
    (∀ program later,
      old.watch (.load program :: later) = fresh.watch (.load program :: later)) ∧
    (∀ image later,
      old.watch (.loadImage image :: later) = fresh.watch (.loadImage image :: later)) ∧
    (∀ program,
      (old.load program).result = min program.length 256 ∧
      (old.load program).engine.machine.memory.toList =
        program.take 256 ++ List.replicate (256 - program.length) 0 ∧
      (old.load program).events =
        .reset ::
          (program.take 256).mapIdx (fun i value => .memoryChanged (UInt8.ofNat i) value) ++
            [.programCounterChanged 0]) ∧
    ∀ image name, (old.loadImage image).engine.image name = { image with filename := name } := by
  intro old fresh
  have same : SameSetup fresh old := lawful_sameSetup.performAll history fresh
  refine ⟨?_, ?_, ?_, ?_⟩
  . intro program later
    apply watch_cons_of_perform_eq
    rw [perform, perform, load_eq_of_sameSetup same]
  . intro image later
    apply watch_cons_of_perform_eq
    rw [perform, perform, loadImage_eq_of_sameSetup same]
  . intro program
    refine ⟨?_, ?_, old.events_load program⟩
    . rw [load, List.length_take, Nat.min_comm]
    . rw [memory_load, Memory.toList_ofBytes]
  . intro image name
    rw [engine_loadImage]
    rfl

end Engine
end ByteMachine
