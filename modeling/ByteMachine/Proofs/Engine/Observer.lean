import ByteMachine.Proofs.Engine.History
import ByteMachine.Proofs.Instruction

/-!
This module contains an observer who hears nothing but the published events and keeps a picture of
the machine. With the standard instructions the picture is right after every operation.
-/

namespace ByteMachine

structure Picture where
  memory : Memory := .zero
  videoMemory : Memory := .zero
  registers : RegisterFile := .zero
  programCounter : UInt8 := 0
  carry : Bool := false
  bank : UInt8 := 0
  palette : UInt8 := 0
  /-- The return addresses, the oldest first. -/
  frames : List UInt8 := []
deriving DecidableEq

def Machine.picture (m : Machine) : Picture where
  memory := m.memory
  videoMemory := m.videoMemory
  registers := m.registers
  programCounter := m.programCounter
  carry := m.carry
  bank := m.bank.current
  palette := m.palette.current
  frames := m.callStack.frames

structure Observer where
  picture : Picture := {}
  /-- Where the latest operand byte stood. -/
  lastOperand : UInt8 := 0
deriving DecidableEq

namespace Observer

def paint (o : Observer) (change : Picture → Picture) : Observer :=
  { o with picture := change o.picture }

/--
Calls and returns have no event of their own: the observer tells them by the instruction that was
executed, and a return address by where the operand of the call stood.
-/
def hear (o : Observer) : Event → Observer
  | .memoryChanged address value => o.paint fun p => { p with memory := p.memory.set address value }
  | .videoMemoryChanged address value =>
    o.paint fun p => { p with videoMemory := p.videoMemory.set address value }
  | .registerChanged r value => o.paint fun p => { p with registers := p.registers.set r value }
  | .programCounterChanged value => o.paint fun p => { p with programCounter := value }
  | .carryChanged value => o.paint fun p => { p with carry := value }
  | .bankSelected bank => o.paint fun p => { p with bank }
  | .paletteSelected palette => o.paint fun p => { p with palette }
  | .reset => o.paint fun _ => {}
  | .parameterParsed _ _ position => { o with lastOperand := position }
  | .instructionExecuted opcode =>
    if opcode = 0x25 then
      o.paint fun p => { p with frames := p.frames ++ [o.lastOperand + 1] }
    else if opcode = 0x26 then
      o.paint fun p => { p with frames := p.frames.dropLast }
    else
      o
  | .instructionParseBegun _ _ => o
  | .invalidByteParsed _ _ => o
  | .printRequested _ => o
  | .error _ _ _ => o

def hearAll (o : Observer) (events : List Event) : Observer :=
  events.foldl hear o

def CarryFlips : Observer → List Event → Prop
  | _, [] => True
  | o, event :: rest =>
    (∀ value, event = .carryChanged value → value ≠ o.picture.carry) ∧
      CarryFlips (o.hear event) rest

@[simp]
theorem hearAll_nil (o : Observer) : o.hearAll [] = o := rfl

@[simp]
theorem hearAll_cons (o : Observer) (event : Event) (rest : List Event) :
    o.hearAll (event :: rest) = (o.hear event).hearAll rest := rfl

@[simp]
theorem hearAll_append (o : Observer) (first second : List Event) :
    o.hearAll (first ++ second) = (o.hearAll first).hearAll second :=
  List.foldl_append

theorem carryFlips_append (o : Observer) (first second : List Event) :
    o.CarryFlips (first ++ second) ↔ o.CarryFlips first ∧ (o.hearAll first).CarryFlips second := by
  induction first generalizing o with
  | nil => simp [CarryFlips]
  | cons event rest ih => simp [CarryFlips, ih, and_assoc]

theorem CarryFlips.ne_of_append {o : Observer} {before after : List Event} {value : Bool}
    (h : o.CarryFlips (before ++ .carryChanged value :: after)) :
    value ≠ (o.hearAll before).picture.carry := by
  rw [carryFlips_append] at h
  exact h.2.1 value rfl

def Follows (m : Machine) (events : List Event) (n : Machine) : Prop :=
  ∀ o : Observer, o.picture = m.picture →
    (o.hearAll events).picture = n.picture ∧ o.CarryFlips events

theorem Follows.refl (m : Machine) : Follows m [] m :=
  fun _ h => ⟨h, trivial⟩

theorem Follows.trans {a b c : Machine} {first second : List Event} (h : Follows a first b)
    (g : Follows b second c) : Follows a (first ++ second) c := by
  intro o right
  have between := h o right
  have last := g _ between.1
  rw [hearAll_append, carryFlips_append]
  exact ⟨last.1, between.2, last.2⟩

theorem follows_perform {op : Opcode} {ops : Operands} {action : Action} (x : Execution)
    (permits : op.Permits ops action) (notCall : op ≠ .call) (notRet : op ≠ .ret) :
    Follows x.machine (x.perform action).events (x.perform action).execution.machine := by
  rintro ⟨picture, lastOperand⟩ rfl
  cases action with
  | setRegister r value => exact ⟨rfl, by simp [Execution.perform, Execution.change, CarryFlips]⟩
  | writeMemory address value =>
    exact ⟨rfl, by simp [Execution.perform, Execution.change, CarryFlips]⟩
  | writeVideoMemory address value =>
    exact ⟨rfl, by simp [Execution.perform, Execution.change, CarryFlips]⟩
  | setCarry value =>
    simp only [Execution.perform]
    split
    . exact ⟨rfl, trivial⟩
    . next flips =>
      refine ⟨rfl, ?_, trivial⟩
      intro value' same
      cases same
      exact fun h => flips h.symm
  | jump target => exact ⟨rfl, by simp [Execution.perform, Execution.jump, CarryFlips]⟩
  | call target => exact absurd permits.1 notCall
  | ret => exact absurd permits notRet
  | selectBank bank =>
    simp only [Execution.perform, Execution.tryChange]
    split
    . next selected =>
      obtain ⟨-, rfl⟩ := Machine.selectBank_eq_ok_iff.1 selected
      exact ⟨rfl, by simp [Execution.change, CarryFlips]⟩
    . exact ⟨rfl, trivial⟩
  | selectPalette palette =>
    simp only [Execution.perform, Execution.tryChange]
    split
    . next selected =>
      obtain ⟨-, rfl⟩ := Machine.selectPalette_eq_ok_iff.1 selected
      exact ⟨rfl, by simp [Execution.change, CarryFlips]⟩
    . exact ⟨rfl, trivial⟩
  | publish event =>
    obtain ⟨text, rfl⟩ := permits
    exact ⟨rfl, by simp [Execution.perform, CarryFlips]⟩

theorem follows_run {op : Opcode} {ops : Operands} (x : Execution)
    (accept : OperandKind.Accept op.operands ops.bytes) (notCall : op ≠ .call)
    (notRet : op ≠ .ret) :
    Follows x.machine ((op.execute ops).run x).events
      ((op.execute ops).run x).execution.machine := by
  have run := Opcode.run_execute (R := fun x events y => Follows x.machine events y.machine)
    (fun x => .refl x.machine) (fun _ _ _ _ _ first second => first.trans second)
    (fun x action permits => follows_perform x permits notCall notRet) accept x
  exact run.1

theorem carryFlips_closing (o : Observer) (p : Pending) (result : Except Fault Unit) :
    o.CarryFlips [p.closing result] := by
  cases result <;> simp [Pending.closing, CarryFlips]

theorem hear_closing {p : Pending} {op : Opcode} (o : Observer) (opcode : p.opcode = op.byte)
    (notCall : op ≠ .call) (notRet : op ≠ .ret) (result : Except Fault Unit) :
    o.hear (p.closing result) = o := by
  cases result with
  | error fault => rfl
  | ok =>
    have callByte : op.byte ≠ 0x25 := fun h => notCall (Opcode.byte_injective (b := .call) h)
    have retByte : op.byte ≠ 0x26 := fun h => notRet (Opcode.byte_injective (b := .ret) h)
    simp [Pending.closing, hear, opcode, callByte, retByte]

theorem hear_call {p : Pending} (o : Observer) (opcode : p.opcode = Opcode.call.byte)
    (target : UInt8) {m : Machine} (right : o.picture = m.picture)
    (place : o.lastOperand = m.programCounter) :
    let done := (Execution.start m).perform (.call target)
    (o.hearAll (done.events ++ [p.closing done.value])).picture =
        done.execution.machine.picture ∧
      o.CarryFlips (done.events ++ [p.closing done.value]) := by
  simp only [Execution.perform]
  split
  . next pushed =>
    obtain ⟨callStack, push, rfl⟩ := Machine.pushReturn_eq_ok_iff.1 pushed
    obtain ⟨-, -, frames⟩ := CallStack.push_eq_ok_iff.1 push
    obtain ⟨picture, lastOperand⟩ := o
    cases right
    cases place
    refine ⟨?_, by simp [Execution.jump, Pending.closing, CarryFlips]⟩
    simp [Execution.jump, Pending.closing, hear, opcode, Opcode.byte, paint, Machine.picture,
      frames, Execution.start]
  . exact ⟨right, by simp [Pending.closing, CarryFlips]⟩

theorem hear_ret {p : Pending} (o : Observer) (opcode : p.opcode = Opcode.ret.byte)
    {m : Machine} (right : o.picture = m.picture) :
    let done := (Execution.start m).perform .ret
    (o.hearAll (done.events ++ [p.closing done.value])).picture =
        done.execution.machine.picture ∧
      o.CarryFlips (done.events ++ [p.closing done.value]) := by
  simp only [Execution.perform]
  split
  . next popped =>
    obtain ⟨callStack, pop, rfl⟩ := Machine.popReturn_eq_ok_iff.1 popped
    have frames := CallStack.frames_of_pop pop
    obtain ⟨picture, lastOperand⟩ := o
    cases right
    refine ⟨?_, by simp [Execution.jump, Pending.closing, CarryFlips]⟩
    simp only [Execution.start] at frames
    simp [Execution.jump, Pending.closing, hear, opcode, Opcode.byte, paint, Machine.picture,
      frames, Execution.start]
  . exact ⟨right, by simp [Pending.closing, CarryFlips]⟩

theorem hear_execute {p : Pending} {op : Opcode} (instruction : p.instruction = op.instruction)
    (opcode : p.opcode = op.byte) (length : p.collected.length = p.required) {m : Machine}
    {o : Observer} (right : o.picture = m.picture)
    (place : p.collected ≠ [] → o.lastOperand = m.programCounter) :
    let done := p.execute m
    (o.hearAll (done.events ++ [p.closing done.value])).picture =
        done.execution.machine.picture ∧
      o.CarryFlips (done.events ++ [p.closing done.value]) := by
  cases valid : p.validate with
  | error fault =>
    simp only [Pending.execute, valid]
    exact ⟨right, carryFlips_closing o p _⟩
  | ok =>
    have accept := p.accept_of_validate length valid
    simp only [Pending.execute, valid, instruction] at accept ⊢
    by_cases call : op = .call
    . cases call
      obtain ⟨target, _, -, bytes⟩ := OperandKind.accept_memoryAddress_cons_iff.1 accept
      have run : (Opcode.call.instruction.execute ⟨p.collected⟩).run (.start m) =
          (Execution.start m).perform (.call target) := by
        rw [bytes]
        exact Routine.run_attempt _ _
      rw [run]
      exact hear_call o opcode target right (place (by simp [bytes]))
    . by_cases ret : op = .ret
      . cases ret
        have run : (Opcode.ret.instruction.execute ⟨p.collected⟩).run (.start m) =
            (Execution.start m).perform .ret :=
          Routine.run_attempt _ _
        rw [run]
        exact hear_ret o opcode right
      . have legal : OperandKind.Accept op.operands (Operands.mk p.collected).bytes := accept
        have follows := follows_run (.start m) legal call ret o right
        rw [hearAll_append, carryFlips_append]
        refine ⟨?_, follows.2, carryFlips_closing _ p _⟩
        rw [hearAll_cons, hear_closing _ opcode call ret]
        exact follows.1

theorem hear_programCounter {o : Observer} {m : Machine} (right : o.picture = m.picture)
    (value : UInt8) :
    (o.hear (.programCounterChanged value)).picture =
      { m with programCounter := value }.picture := by
  simp only [hear, paint, right]
  rfl

theorem hear_engine_execute {e : Engine} {p : Pending} (standard : e.instructions = .standard)
    (placed : e.Placed p) (length : p.collected.length = p.required) {o : Observer}
    (right : o.picture = e.machine.picture)
    (place : p.collected ≠ [] → o.lastOperand = e.machine.programCounter) :
    (o.hearAll (e.execute p).events).picture = (e.execute p).engine.machine.picture ∧
      o.CarryFlips (e.execute p).events := by
  have lookup := placed.lookup_opcode
  rw [standard] at lookup
  obtain ⟨op, byte, instruction⟩ := Option.map_eq_some_iff.1 lookup
  have told := hear_execute instruction.symm (Opcode.byte_of_ofByte? byte).symm length right place
  simp only [Engine.execute]
  split
  . exact told
  . have moved := hear_programCounter told.1
      ((p.execute e.machine).execution.machine.programCounter + 1)
    simp only [Engine.advance]
    rw [← List.singleton_append, ← List.append_assoc, hearAll_append, carryFlips_append]
    exact ⟨moved, told.2, by simp [CarryFlips]⟩

def Told (e : Engine) (events : List Event) (f : Engine) : Prop :=
  e.instructions = .standard → e.Decoding →
    f.instructions = .standard ∧ f.Decoding ∧ Follows e.machine events f.machine

theorem told_cycle (e : Engine) : Told e e.cycle.events e.cycle.engine := by
  intro standard decoding
  refine ⟨by rw [Engine.instructions_cycle, standard], decoding.cycle, ?_⟩
  intro o right
  rcases e.cycle_cases with ⟨idle, unbound⟩ | ⟨p, event, waiting, consumes⟩ |
    ⟨p, collecting, ready, -⟩
  . rw [Engine.cycle_of_unbound idle unbound]
    exact ⟨hear_programCounter right _, by simp [Engine.skip, CarryFlips]⟩
  . have placed := decoding.placed consumes
    -- the event that reports the byte moves the observer's mark to an operand
    have heard : (o.hear event).picture = e.machine.picture ∧ o.CarryFlips [event] ∧
        (p.collected ≠ [] → (o.hear event).lastOperand = e.machine.programCounter) := by
      cases consumes with
      | opcode => exact ⟨right, by simp [CarryFlips], by simp [Engine.opened]⟩
      | operand => exact ⟨right, by simp [CarryFlips], fun _ => rfl⟩
    rw [Engine.cycle_of_consumes consumes]
    cases ready : p.isReady with
    | true =>
      rw [e.proceed_of_ready ready]
      have told := hear_engine_execute standard placed (placed.length_eq ready) heard.1 heard.2.2
      simp only [Reaction.after]
      rw [hearAll_append, carryFlips_append]
      exact ⟨told.1, heard.2.1, told.2⟩
    | false =>
      rw [e.proceed_of_not_ready ready]
      simp only [Reaction.after]
      rw [hearAll_append, carryFlips_append]
      exact ⟨hear_programCounter heard.1 _, heard.2.1, by simp [CarryFlips]⟩
  . rw [decoding.not_ready collecting] at ready
    contradiction

theorem carryFlips_of_not_mem {events : List Event} (o : Observer)
    (h : ∀ value, .carryChanged value ∉ events) : o.CarryFlips events := by
  induction events generalizing o with
  | nil => trivial
  | cons event rest ih =>
    constructor
    . rintro value rfl
      exact absurd List.mem_cons_self (h value)
    . apply ih
      intro value mem
      exact h value (List.mem_cons_of_mem event mem)

theorem hearAll_writes (o : Observer) (cells : List (UInt8 × UInt8)) :
    o.hearAll (cells.map fun (address, value) => .memoryChanged address value) =
      o.paint fun p => { p with memory := p.memory.write cells } := by
  induction cells generalizing o with
  | nil => rfl
  | cons cell rest ih =>
    rw [List.map_cons, hearAll_cons, ih]
    rfl

theorem follows_load (e : Engine) (program : List UInt8) :
    Follows e.machine (e.load program).events (e.load program).engine.machine := by
  intro o _
  constructor
  . simp only [Engine.load, List.cons_append, hearAll_cons, hearAll_append, hearAll_writes,
      Memory.write_addresses, Memory.overlay_take]
    rfl
  . apply carryFlips_of_not_mem
    simp [Engine.load]

theorem follows_singleton {m n : Machine} {event : Event}
    (right : ∀ lastOperand, (hear ⟨m.picture, lastOperand⟩ event).picture = n.picture)
    (noCarry : ∀ value, event ≠ .carryChanged value) : Follows m [event] n := by
  rintro ⟨_, lastOperand⟩ rfl
  refine ⟨right lastOperand, ?_, trivial⟩
  intro value same
  exact absurd same (noCarry value)

theorem lawful_told : Engine.Lawful Told where
  refl e standard decoding := ⟨standard, decoding, .refl e.machine⟩
  trans first second standard decoding := by
    have left := first standard decoding
    have right := second left.1 left.2.1
    exact ⟨right.1, right.2.1, left.2.2.trans right.2.2⟩
  cycle := told_cycle
  load e program standard decoding := by
    refine ⟨?_, Engine.lawful_decoding.load e program decoding, follows_load e program⟩
    rw [Engine.instructions_load, standard]
  reset e standard decoding := by
    refine ⟨standard, Engine.lawful_decoding.reset e decoding, ?_⟩
    exact follows_singleton (fun _ => rfl) (by simp)
  setRegister e r value standard decoding := by
    refine ⟨standard, Engine.lawful_decoding.setRegister e r value decoding, ?_⟩
    exact follows_singleton (fun _ => rfl) (by simp)
  setMemory e address value standard decoding := by
    refine ⟨standard, Engine.lawful_decoding.setMemory e address value decoding, ?_⟩
    exact follows_singleton (fun _ => rfl) (by simp)
  setVideoMemory e address value standard decoding := by
    refine ⟨standard, Engine.lawful_decoding.setVideoMemory e address value decoding, ?_⟩
    exact follows_singleton (fun _ => rfl) (by simp)
  setProgramCounter e value standard decoding := by
    refine ⟨standard, Engine.lawful_decoding.setProgramCounter e value decoding, ?_⟩
    exact follows_singleton (fun _ => rfl) (by simp)

end Observer
end ByteMachine
