import ByteMachine.Proofs.Engine.Loading
import ByteMachine.Proofs.Engine.Tandem
import ByteMachine.Proofs.Instruction.Reads

/-!
This module contains the reason why a program cannot tell what is on display: the video memory, the
bank and the palette are written and never read, so they have no influence on anything else.
-/

namespace ByteMachine

def Machine.withDisplay (m : Machine) (videoMemory : Memory) (bank palette : UInt8) : Machine :=
  { m with
    videoMemory
    bank := { m.bank with current := bank }
    palette := { m.palette with current := palette } }

def Snapshot.withoutDisplay (s : Snapshot) : Snapshot :=
  { s with videoMemory := [], bank := 0, palette := 0 }

namespace Execution

def DiffersInDisplay (x y : Execution) : Prop :=
  ∃ videoMemory bank palette,
    y = { x with machine := x.machine.withDisplay videoMemory bank palette }

theorem DiffersInDisplay.operands_eq {x y : Execution} (h : x.DiffersInDisplay y) :
    x.operands = y.operands := by
  obtain ⟨videoMemory, bank, palette, rfl⟩ := h
  rfl

theorem DiffersInDisplay.perform {x y : Execution} (h : x.DiffersInDisplay y) (action : Action) :
    (x.perform action).Agree DiffersInDisplay (y.perform action) := by
  obtain ⟨videoMemory, bank, palette, rfl⟩ := h
  cases action with
  | setRegister r value => exact ⟨rfl, rfl, videoMemory, bank, palette, rfl⟩
  | writeMemory address value => exact ⟨rfl, rfl, videoMemory, bank, palette, rfl⟩
  | writeVideoMemory address value =>
    exact ⟨rfl, rfl, videoMemory.set address value, bank, palette, rfl⟩
  | publish event => exact ⟨rfl, rfl, videoMemory, bank, palette, rfl⟩
  | jump target => exact ⟨rfl, rfl, videoMemory, bank, palette, rfl⟩
  | setCarry value =>
    by_cases same : x.machine.carry = value
    . subst same
      simp only [Execution.perform, Machine.withDisplay, ↓reduceIte]
      exact ⟨rfl, rfl, videoMemory, bank, palette, rfl⟩
    . simp only [Execution.perform, Machine.withDisplay, same, ↓reduceIte]
      exact ⟨rfl, rfl, videoMemory, bank, palette, rfl⟩
  | call target =>
    simp only [Execution.perform, Machine.pushReturn, Machine.withDisplay]
    cases x.machine.callStack.push x.nextAddress <;>
      exact ⟨rfl, rfl, videoMemory, bank, palette, rfl⟩
  | ret =>
    simp only [Execution.perform, Machine.popReturn, Machine.withDisplay]
    cases x.machine.callStack.pop <;> exact ⟨rfl, rfl, videoMemory, bank, palette, rfl⟩
  | selectBank value =>
    by_cases below : value < x.machine.bank.count
    . simp only [Execution.perform, Machine.selectBank, Selector.select, Machine.withDisplay,
        below, ↓reduceIte]
      exact ⟨rfl, rfl, videoMemory, value, palette, rfl⟩
    . simp only [Execution.perform, Machine.selectBank, Selector.select, Machine.withDisplay,
        below, ↓reduceIte]
      exact ⟨rfl, rfl, videoMemory, bank, palette, rfl⟩
  | selectPalette value =>
    by_cases below : value < x.machine.palette.count
    . simp only [Execution.perform, Machine.selectPalette, Selector.select, Machine.withDisplay,
        below, ↓reduceIte]
      exact ⟨rfl, rfl, videoMemory, bank, value, rfl⟩
    . simp only [Execution.perform, Machine.selectPalette, Selector.select, Machine.withDisplay,
        below, ↓reduceIte]
      exact ⟨rfl, rfl, videoMemory, bank, palette, rfl⟩

end Execution

theorem Pending.agree_execute {p : Pending} {op : Opcode}
    (instruction : p.instruction = op.instruction) (m : Machine) (videoMemory : Memory)
    (bank palette : UInt8) :
    (p.execute m).Agree Execution.DiffersInDisplay
      (p.execute (m.withDisplay videoMemory bank palette)) := by
  have start : (Execution.start m).DiffersInDisplay
      (.start (m.withDisplay videoMemory bank palette)) :=
    ⟨videoMemory, bank, palette, rfl⟩
  rw [execute, execute]
  cases p.validate with
  | ok =>
    rw [instruction]
    exact (op.looksAt_execute ⟨p.collected⟩).run (fun differs => differs.operands_eq)
      (fun differs => differs.perform) start
  | error fault => exact ⟨rfl, rfl, start⟩

namespace Engine

def DiffersInDisplay (e f : Engine) : Prop :=
  ∃ videoMemory bank palette,
    f = { e with machine := e.machine.withDisplay videoMemory bank palette }

theorem DiffersInDisplay.refl (e : Engine) : e.DiffersInDisplay e :=
  ⟨e.machine.videoMemory, e.machine.bank.current, e.machine.palette.current, rfl⟩

theorem DiffersInDisplay.sameSetup {e f : Engine} (h : e.DiffersInDisplay f) : SameSetup e f := by
  obtain ⟨videoMemory, bank, palette, rfl⟩ := h
  exact ⟨rfl, rfl⟩

theorem DiffersInDisplay.of_snapshot {e f : Engine} (setup : SameSetup e f) (left : e.Decoding)
    (right : f.Decoding) (same : e.snapshot.withoutDisplay = f.snapshot.withoutDisplay) :
    e.DiffersInDisplay f := by
  let e' : Engine :=
    { e with
      machine := e.machine.withDisplay f.machine.videoMemory f.machine.bank.current
        f.machine.palette.current }
  -- with the display of the second engine the first one shows the whole snapshot of the second
  have shown : f.snapshot = e'.snapshot := by
    have hidden := congrArg (fun s => { s with
      videoMemory := f.snapshot.videoMemory
      bank := f.snapshot.bank
      palette := f.snapshot.palette }) same
    exact hidden.symm
  have decoding : e'.Decoding := by
    intro p collecting
    have coherent := left p collecting
    exact ⟨coherent.1, coherent.2, coherent.3⟩
  refine ⟨f.machine.videoMemory, f.machine.bank.current, f.machine.palette.current, ?_⟩
  exact Engine.ext (machine_eq_of_snapshot shown setup.config) setup.instructions
    (pending_eq_of_snapshot shown setup.instructions right decoding)

theorem DiffersInDisplay.snapshot_eq {e f : Engine} (h : e.DiffersInDisplay f) :
    e.snapshot.withoutDisplay = f.snapshot.withoutDisplay := by
  obtain ⟨videoMemory, bank, palette, rfl⟩ := h
  rfl

theorem DiffersInDisplay.execute {e f : Engine} (h : e.DiffersInDisplay f) {p : Pending}
    {op : Opcode} (instruction : p.instruction = op.instruction) :
    (e.execute p).Agree DiffersInDisplay (f.execute p) := by
  obtain ⟨videoMemory, bank, palette, rfl⟩ := h
  obtain ⟨value, events, videoMemory', bank', palette', execution⟩ :=
    p.agree_execute instruction e.machine videoMemory bank palette
  simp only [Engine.execute, ← value, ← events, execution]
  split <;> exact ⟨rfl, rfl, videoMemory', bank', palette', rfl⟩

theorem DiffersInDisplay.cycle {e f : Engine} (standard : e.instructions = .standard)
    (decoding : e.Decoding) (h : e.DiffersInDisplay f) :
    e.cycle.Agree DiffersInDisplay f.cycle := by
  have display := h
  obtain ⟨videoMemory, bank, palette, rfl⟩ := h
  apply agree_cycle_of_machine decoding
  . rfl
  . rfl
  . intro pending
    exact ⟨videoMemory, bank, palette, rfl⟩
  . intro p event placed _ _
    obtain ⟨op, -, instruction⟩ := instruction_of_standard standard placed.lookup_opcode
    exact display.execute instruction

structure Twins (e f : Engine) : Prop where
  standard : e.instructions = .standard
  decoding : e.Decoding
  display : e.DiffersInDisplay f

theorem tandem_twins : Tandem Twins where
  cycle {e f} h := by
    have agree := h.display.cycle h.standard h.decoding
    refine ⟨agree.result, agree.events, ?_, h.decoding.cycle, agree.engine⟩
    rw [instructions_cycle, h.standard]
  load {e f} h program := by
    rw [load_eq_of_sameSetup h.display.sameSetup]
    refine ⟨rfl, rfl, ?_, decoding_of_idle rfl, .refl _⟩
    rw [instructions_load, h.standard]
  reset {e f} h := by
    obtain ⟨videoMemory, bank, palette, rfl⟩ := h.display
    exact ⟨rfl, rfl, h.standard, decoding_of_idle rfl, .refl _⟩
  setRegister {e f} h r value := by
    obtain ⟨videoMemory, bank, palette, rfl⟩ := h.display
    exact ⟨rfl, rfl, h.standard, lawful_decoding.setRegister e r value h.decoding,
      videoMemory, bank, palette, rfl⟩
  setMemory {e f} h address value := by
    obtain ⟨videoMemory, bank, palette, rfl⟩ := h.display
    exact ⟨rfl, rfl, h.standard, lawful_decoding.setMemory e address value h.decoding,
      videoMemory, bank, palette, rfl⟩
  setVideoMemory {e f} h address value := by
    obtain ⟨videoMemory, bank, palette, rfl⟩ := h.display
    exact ⟨rfl, rfl, h.standard, lawful_decoding.setVideoMemory e address value h.decoding,
      videoMemory.set address value, bank, palette, rfl⟩
  setProgramCounter {e f} h value := by
    obtain ⟨videoMemory, bank, palette, rfl⟩ := h.display
    exact ⟨rfl, rfl, h.standard, decoding_of_idle rfl, videoMemory, bank, palette, rfl⟩

theorem display_is_write_only (config : Config) (first second : List Operation) :
    let e := ((new config).performAll first).engine
    let f := ((new config).performAll second).engine
    e.snapshot.withoutDisplay = f.snapshot.withoutDisplay →
      ∀ operations, (e.watch operations).map (Sight.through Snapshot.withoutDisplay) =
        (f.watch operations).map (Sight.through Snapshot.withoutDisplay) := by
  intro e f same operations
  obtain ⟨left, leftConfig⟩ := setup_of_history config .standard first
  obtain ⟨right, rightConfig⟩ := setup_of_history config .standard second
  have setup : SameSetup e f := ⟨right.trans left.symm, rightConfig.trans leftConfig.symm⟩
  have decoding : e.Decoding := Reachable.decoding ⟨config, .standard, first, rfl⟩
  have decoding' : f.Decoding := Reachable.decoding ⟨config, .standard, second, rfl⟩
  have twins : Twins e f := ⟨left, decoding, .of_snapshot setup decoding decoding' same⟩
  exact tandem_twins.watch Snapshot.withoutDisplay (fun h => h.display.snapshot_eq) twins operations

def painting : List Operation :=
  [.setMemory 0 0x51, .setMemory 1 3, .setMemory 2 0x52, .setMemory 3 2, .setMemory 4 0x50,
    .setMemory 6 9]

theorem display_is_write_only_of_painting :
    let e := ((new {}).performAll (painting ++ [.cycle])).engine
    let f := ((new {}).performAll
      (painting ++ [.run 7, .setVideoMemory 200 7, .setProgramCounter 0, .cycle])).engine
    e.snapshot.withoutDisplay = f.snapshot.withoutDisplay ∧
      e.snapshot.videoMemory ≠ f.snapshot.videoMemory ∧
      e.snapshot.bank ≠ f.snapshot.bank ∧
      e.snapshot.palette ≠ f.snapshot.palette ∧
      (e.watch [.step, .run 2, .step, .reset]).map (Sight.through Snapshot.withoutDisplay) =
        (f.watch [.step, .run 2, .step, .reset]).map (Sight.through Snapshot.withoutDisplay) := by
  intro e f
  have same : e.snapshot.withoutDisplay = f.snapshot.withoutDisplay := by
    rw [Snapshot.withoutDisplay, Snapshot.withoutDisplay, Snapshot.mk.injEq]
    refine ⟨?_, rfl, ?_, ?_, ?_, ?_, rfl, rfl, ?_, ?_⟩ <;> decide +kernel
  refine ⟨same, by decide +kernel, by decide +kernel, by decide +kernel, ?_⟩
  exact display_is_write_only {} _ _ same _

end Engine
end ByteMachine
