import ByteMachine.Engine.Exchange
import ByteMachine.Proofs.Engine.History
import ByteMachine.Proofs.Engine.LoadImage
import ByteMachine.Proofs.Image.LongForm.RoundTrip
import ByteMachine.Proofs.Image.ShortForm

/-!
This module contains what saving an engine and restoring it in another comes to: the memories and
the name come back, and nothing else does. What cannot be read changes nothing.
-/

namespace ByteMachine
namespace Engine

def restored (e : Engine) (memory videoMemory : Memory) : Engine :=
  { withInstructions e.config e.instructions with
    machine := { Machine.new e.config with memory, videoMemory } }

def oneLine (name : Option String) : Option String :=
  (name.filter (· ≠ "")).map (String.map fun c => if c = '\r' ∨ c = '\n' then ' ' else c)

theorem loadImage_restored (image : Image) (e : Engine) :
    (e.loadImage image).engine = e.restored image.memory image.videoMemory :=
  e.engine_loadImage image

theorem importLong_exportLong (e f : Engine) (name : Option String) :
    let read := f.importLong (e.exportLong name)
    read.result = { filename := oneLine name, warnings := [] } ∧
      read.engine = f.restored e.machine.memory e.machine.videoMemory ∧
      read.engine.exportLong (oneLine name) = e.exportLong name := by
  have decoded := LongForm.decode_encode (e.image name)
  have engine : (f.importLong (e.exportLong name)).engine =
      f.restored e.machine.memory e.machine.videoMemory := by
    simp only [importLong, exportLong, decoded, loadImage_restored]
    rfl
  refine ⟨?_, engine, ?_⟩
  . simp only [importLong, exportLong, decoded]
    rfl
  . rw [engine]
    exact LongForm.encode_kept (e.image name)

theorem importShort_exportShort (e f : Engine) (name : Option String) :
    let read := f.importShort (e.exportShort name)
    read.result = .ok { filename := name.filter (· ≠ ""), warnings := [] } ∧
      read.engine = f.restored e.machine.memory .zero ∧
      read.engine.exportShort (name.filter (· ≠ "")) = e.exportShort name := by
  have decoded := ShortForm.decode_encode (e.image name)
  have engine : (f.importShort (e.exportShort name)).engine =
      f.restored e.machine.memory .zero := by
    simp only [importShort, exportShort, decoded, loadImage_restored]
    rfl
  refine ⟨?_, engine, ?_⟩
  . simp only [importShort, exportShort, decoded]
    rfl
  . rw [engine]
    exact ShortForm.encode_kept (e.image name)

theorem unchanged_of_importShort {e : Engine} {query : String} {refusal : Refusal}
    (refused : (e.importShort query).result = .error refusal) :
    (e.importShort query).engine = e ∧ (e.importShort query).events = [] := by
  cases decoded : ShortForm.decode query with
  | none =>
    simp only [importShort, decoded]
    exact ⟨rfl, rfl⟩
  | some image =>
    simp only [importShort, decoded] at refused
    contradiction

theorem unchanged_of_assemble {e : Engine} {source : String} {refusal : Refusal}
    (refused : (e.assemble source).result = .error refusal) :
    (e.assemble source).engine = e ∧ (e.assemble source).events = [] := by
  cases assembled : Assembly.assemble source with
  | error error =>
    simp only [assemble, assembled]
    exact ⟨rfl, rfl⟩
  | ok program =>
    simp only [assemble, assembled] at refused
    contradiction

theorem restore_inverts_save (e f : Engine) (name : Option String) :
    let long := f.importLong (e.exportLong name)
    let short := f.importShort (e.exportShort name)
    (long.result = { filename := oneLine name, warnings := [] } ∧
      long.engine = f.restored e.machine.memory e.machine.videoMemory ∧
      long.engine.exportLong (oneLine name) = e.exportLong name) ∧
    (short.result = .ok { filename := name.filter (· ≠ ""), warnings := [] } ∧
      short.engine = f.restored e.machine.memory .zero ∧
      short.engine.exportShort (name.filter (· ≠ "")) = e.exportShort name) ∧
    (∀ query refusal, (f.importShort query).result = .error refusal →
      (f.importShort query).engine = f ∧ (f.importShort query).events = []) ∧
    ∀ source refusal, (f.assemble source).result = .error refusal →
      (f.assemble source).engine = f ∧ (f.assemble source).events = [] :=
  ⟨importLong_exportLong e f name, importShort_exportShort e f name,
    fun _ _ => unchanged_of_importShort, fun _ _ => unchanged_of_assemble⟩

def midway : Engine :=
  ((new {}).performAll [.setMemory 0 0x25, .setVideoMemory 9 5, .cycle]).engine

def occupied : Engine :=
  ((new {}).performAll
    [.setMemory 0 0x25, .setMemory 3 7, .setVideoMemory 1 1, .cycle, .cycle, .cycle]).engine

theorem restore_inverts_save_midway :
    let long := occupied.importLong (midway.exportLong (some "a\nb"))
    midway.pending.isSome ∧ occupied.pending.isSome ∧
      occupied.machine.callStack.frames = [2] ∧
      long.result = { filename := some "a b", warnings := [] } ∧
      long.engine = occupied.restored midway.machine.memory midway.machine.videoMemory ∧
      long.engine.exportLong (some "a b") = midway.exportLong (some "a\nb") ∧
      (occupied.importShort "fn=x").result = .error .malformedQuery ∧
      (occupied.importShort "fn=x").engine = occupied ∧
      (occupied.assemble "JMP :nowhere").result =
        .error (.assembly ⟨1, .labelNotFound "nowhere"⟩) ∧
      (occupied.assemble "JMP :nowhere").engine = occupied := by
  intro long
  have name : oneLine (some "a\nb") = some "a b" := by decide +kernel
  have malformed : (occupied.importShort "fn=x").result = .error .malformedQuery := by
    decide +kernel
  have missing : (occupied.assemble "JMP :nowhere").result =
      .error (.assembly ⟨1, .labelNotFound "nowhere"⟩) := by
    decide +kernel
  obtain ⟨saved, -, queries, sources⟩ := restore_inverts_save midway occupied (some "a\nb")
  rw [name] at saved
  obtain ⟨result, engine, again⟩ := saved
  exact ⟨by decide +kernel, by decide +kernel, by decide +kernel, result, engine, again,
    malformed, (queries _ _ malformed).1, missing, (sources _ _ missing).1⟩

end Engine
end ByteMachine
