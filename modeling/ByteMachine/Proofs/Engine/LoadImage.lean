import ByteMachine.Engine

/-!
This module contains what loading an image comes to: both memories are those of the image, nothing
is left of what was before, and each cell written is reported.
-/

namespace ByteMachine
namespace Engine

theorem engine_writeCells (cells : List (UInt8 × UInt8)) (r : Reaction Unit) :
    (cells.foldl (fun r (a, v) => r.andThen (Engine.setVideoMemory a v)) r).engine =
      { r.engine with machine :=
        { r.engine.machine with videoMemory := r.engine.machine.videoMemory.write cells } } := by
  induction cells generalizing r with
  | nil => rfl
  | cons cell cells ih =>
    rw [List.foldl_cons, ih]
    rfl

theorem events_writeCells (cells : List (UInt8 × UInt8)) (r : Reaction Unit) :
    (cells.foldl (fun r (a, v) => r.andThen (Engine.setVideoMemory a v)) r).events =
      r.events ++ cells.map fun (a, v) => .videoMemoryChanged a v := by
  induction cells generalizing r with
  | nil => simp
  | cons cell cells ih =>
    rw [List.foldl_cons, ih]
    simp [Reaction.andThen, setVideoMemory]

theorem engine_load_toList (memory : Memory) (e : Engine) :
    (e.load memory.toList).engine =
      { e with machine := { Machine.new e.config with memory }, pending := none } := by
  have copied : (Machine.new e.config).memory.overlay memory.toList = memory :=
    memory.ofBytes_toList
  rw [load, Machine.copyProgram, Machine.reset_eq]
  exact congrArg (fun memory =>
    { e with machine := { Machine.new e.config with memory }, pending := none }) copied

theorem engine_loadImage (image : Image) (e : Engine) :
    (e.loadImage image).engine =
      { e with
        machine :=
          { Machine.new e.config with
            memory := image.memory
            videoMemory := image.videoMemory }
        pending := none } := by
  have numbered : (Memory.addresses.zip image.videoMemory.toList).map Prod.fst =
      Memory.addresses :=
    List.map_fst_zip (by simp [Memory.addresses])
  have written : Memory.zero.write ((Memory.addresses.zip image.videoMemory.toList).filter
      fun (_, v) => v ≠ 0) = image.videoMemory := by
    rw [Memory.write_filter_ne_zero (by rw [numbered]; exact Memory.nodup_addresses)
      (fun address _ => Memory.get_zero address), Memory.write_addresses]
    exact image.videoMemory.ofBytes_toList
  rw [loadImage, engine_writeCells, engine_load_toList]
  exact congrArg (fun videoMemory =>
    { e with
      machine := { Machine.new e.config with memory := image.memory, videoMemory }
      pending := none }) written

end Engine
end ByteMachine
