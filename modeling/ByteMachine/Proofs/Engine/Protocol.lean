import ByteMachine.Proofs.Engine.Fault
import ByteMachine.Proofs.Engine.LoadImage
import ByteMachine.Proofs.Instruction.Events

/-!
This module contains the protocol of decoding: the order in which an engine reports the instructions
it takes from memory, as an observer follows it who hears the events and knows of the operations
that drop an instruction.
-/

namespace ByteMachine

/--
An instruction that has been reported as begun, and how many of its operand bytes have been reported
since.
-/
structure OpenInstruction where
  opcode : Opcode
  position : UInt8
  parsed : Nat := 0
deriving DecidableEq

namespace OpenInstruction

def hear (o : Option OpenInstruction) : Event → Option OpenInstruction
  | .instructionParseBegun opcode position =>
    (Opcode.ofByte? opcode).map fun opcode => { opcode, position }
  | .parameterParsed .. => o.map fun o => { o with parsed := o.parsed + 1 }
  | .instructionExecuted _ | .error .. => none
  | _ => o

def Closes (o : OpenInstruction) : Event → Prop
  | .instructionExecuted opcode => opcode = o.opcode.byte
  | .error opcode position _ => opcode = o.opcode.byte ∧ position = o.position
  | _ => False

inductive Ends (o : OpenInstruction) : List Event → Prop where
  | waiting (more : o.parsed < o.opcode.operands.length) : Ends o []
  | closed {event : Event} (complete : o.parsed = o.opcode.operands.length)
    (closes : o.Closes event) : Ends o [event]

inductive Decodes (byte programCounter : UInt8) : Option OpenInstruction → List Event → Prop where
  | invalid (unbound : Opcode.ofByte? byte = none) :
    Decodes byte programCounter none [.invalidByteParsed byte programCounter]
  | opcode {opcode : Opcode} {rest : List Event} (bound : byte = opcode.byte)
    (ends : Ends { opcode, position := programCounter } rest) :
    Decodes byte programCounter none (.instructionParseBegun byte programCounter :: rest)
  | operand {o : OpenInstruction} {kind : OperandKind} {rest : List Event}
    (next : o.opcode.operands[o.parsed]? = some kind)
    (place : programCounter = o.position + 1 + UInt8.ofNat o.parsed)
    (ends : Ends { o with parsed := o.parsed + 1 } rest) :
    Decodes byte programCounter (some o) (.parameterParsed kind byte programCounter :: rest)

theorem foldl_hear_marks (events : List Event) (o : Option OpenInstruction) :
    (marks events).foldl hear o = events.foldl hear o := by
  rw [marks, List.foldl_filter]
  congr
  funext o event
  cases event <;> rfl

theorem foldl_hear_of_ends {o : OpenInstruction} {events : List Event} (ends : o.Ends events) :
    events.foldl hear (some o) = if o.parsed < o.opcode.operands.length then some o else none := by
  cases ends with
  | waiting more => rw [if_pos more, List.foldl_nil]
  | @closed event complete closes =>
    rw [if_neg (by omega), List.foldl_cons, List.foldl_nil]
    cases event <;> first | rfl | cases closes

end OpenInstruction

open OpenInstruction

/--
The operation leaves nothing pending, and no event says so.
-/
def Operation.drops : Operation → Bool
  | .load _ | .loadImage _ | .reset | .setProgramCounter _ => true
  | _ => false

theorem Pending.isMark_closing (p : Pending) (result : Except Fault Unit) :
    (p.closing result).kind.isMark := by
  cases result <;> rfl

theorem Pending.closes_closing (p : Pending) {op : Opcode} (opcode : p.opcode = op.byte)
    (parsed : Nat) (result : Except Fault Unit) :
    OpenInstruction.Closes ⟨op, p.position, parsed⟩ (p.closing result) := by
  cases result with
  | ok => exact opcode
  | error => exact ⟨opcode, rfl⟩

theorem Pending.turns_execute {p : Pending} {op : Opcode}
    (instruction : p.instruction = op.instruction) (length : p.collected.length = p.required)
    (m : Machine) :
    (p.execute m).Turns ∧ marks (p.execute m).events = [] ∧
      ((p.execute m).value = .error .callStackUnderflow → op = .ret) := by
  rcases execute_cases length m with ⟨byte, kind, refused⟩ | ⟨legal, run⟩
  . rw [refused]
    exact ⟨.straight rfl rfl (by simp), rfl, by simp⟩
  . rw [instruction] at legal run
    obtain ⟨turns, underflow⟩ := Opcode.turns_execute legal m
    rw [run]
    exact ⟨turns, Opcode.marks_execute ⟨p.collected⟩ legal (.start m), underflow⟩

def Pending.open? (p : Pending) : Option OpenInstruction :=
  (Opcode.ofByte? p.opcode).map fun opcode =>
    { opcode, position := p.position, parsed := p.collected.length }

theorem Pending.open?_eq (p : Pending) {op : Opcode} (opcode : p.opcode = op.byte) :
    p.open? = some ⟨op, p.position, p.collected.length⟩ := by
  rw [open?, opcode, Opcode.ofByte?_byte]
  rfl

namespace Engine

def openAfter (e : Engine) (o : Option OpenInstruction) : List Operation → Option OpenInstruction
  | [] => o
  | operation :: rest =>
    let done := e.perform operation
    done.engine.openAfter (if operation.drops then none else done.events.foldl hear o) rest

def open? (e : Engine) : Option OpenInstruction :=
  e.pending.bind (·.open?)

/--
The reports of a cycle on the program counter: one, of where it is afterwards, unless a return finds
no return address.
-/
def counterReports (r : Reaction Outcome) : List UInt8 :=
  if r.result = .faulted Opcode.ret.byte .callStackUnderflow then
    []
  else
    [r.engine.machine.programCounter]

theorem reports_execute {e : Engine} {p : Pending} {op : Opcode}
    (opcode : p.opcode = op.byte) (instruction : p.instruction = op.instruction)
    (length : p.collected.length = p.required) :
    marks (e.execute p).events = [p.closing (p.execute e.machine).value] ∧
      counters (e.execute p).events = counterReports (e.execute p) := by
  have closing := p.isMark_closing (p.execute e.machine).value
  obtain ⟨turns, silent, underflow⟩ := p.turns_execute instruction length e.machine
  simp only [execute, counterReports]
  rw [marks_append, silent, marks_cons_of_isMark closing, counters_append,
    counters_cons_of_isMark closing]
  cases turns with
  | straight on silent other =>
    have ends : p.outcome (p.execute e.machine).value ≠
        .faulted Opcode.ret.byte .callStackUnderflow := by
      intro faulted
      cases value : (p.execute e.machine).value with
      | ok => simp [value, Pending.outcome] at faulted
      | error fault => simp_all [Pending.outcome]
    -- nothing but the advance behind the closing event tells where the program counter is
    simp [on, silent, ends, advance]
  | jumped off told executed => simp [off, told, executed, Pending.outcome]
  | stuck off silent error =>
    rw [underflow error] at opcode
    simp [off, silent, error, Pending.outcome, opcode]

theorem reports_proceed {e : Engine} {p : Pending} (placed : e.Placed p) {op : Opcode}
    (opcode : p.opcode = op.byte) (instruction : p.instruction = op.instruction)
    {waiting : Outcome} (waits : waiting.completes = false) :
    let o : OpenInstruction := ⟨op, p.position, p.collected.length⟩
    let r := e.proceed p waiting
    o.Ends (marks r.events) ∧ r.engine.open? = r.events.foldl hear (some o) ∧
      counters r.events = counterReports r := by
  intro o
  have required : p.required = o.opcode.operands.length := by
    rw [Pending.required, instruction]
    rfl
  cases ready : p.isReady with
  | true =>
    have length := placed.length_eq ready
    obtain ⟨closing, counter⟩ := e.reports_execute opcode instruction length
    have ends : o.Ends (marks (e.execute p).events) := by
      rw [closing]
      exact .closed (length.trans required) (p.closes_closing opcode _ _)
    rw [e.proceed_of_ready ready]
    refine ⟨ends, ?_, counter⟩
    have complete : o.parsed = o.opcode.operands.length := length.trans required
    rw [← foldl_hear_marks, foldl_hear_of_ends ends, if_neg (by omega), open?, pending_execute,
      Option.bind_none]
  | false =>
    have more : o.parsed < p.required := p.isReady_eq_false_iff.1 ready
    rw [e.proceed_of_not_ready ready]
    refine ⟨.waiting (required ▸ more), ?_, ?_⟩
    . simp [open?, p.open?_eq opcode, hear, o]
    . have waits : waiting ≠ .faulted Opcode.ret.byte .callStackUnderflow := by
        rintro rfl
        contradiction
      simp [counterReports, waits]

theorem reports_cycle {e : Engine} (standard : e.instructions = .standard) (decoding : e.Decoding) :
    Decodes e.nextByte e.machine.programCounter e.open? (marks e.cycle.events) ∧
      e.cycle.engine.open? = e.cycle.events.foldl hear e.open? ∧
      counters e.cycle.events = counterReports e.cycle := by
  rcases e.cycle_cases with ⟨idle, unbound⟩ | ⟨p, event, waiting, consumes⟩ | ⟨p, pending, ready, -⟩
  . rw [cycle_of_unbound idle unbound]
    rw [standard, InstructionSet.lookup_standard_eq_none_iff] at unbound
    simp only [open?, idle, Option.bind_none]
    refine ⟨.invalid unbound, ?_, ?_⟩
    . simp [skip, hear, idle]
    . rw [skip, counters_cons_of_isMark rfl]
      rfl
  . have placed := decoding.placed consumes
    obtain ⟨op, opcode, instruction⟩ := instruction_of_standard standard placed.lookup_opcode
    obtain ⟨ends, heard, counter⟩ :=
      reports_proceed placed opcode instruction consumes.not_completes
    rw [cycle_of_consumes consumes]
    simp only [Reaction.after, List.singleton_append]
    cases consumes with
    | opcode idle =>
      rw [marks_cons_of_isMark rfl, counters_cons_of_isMark rfl, open?, idle, Option.bind_none]
      refine ⟨.opcode opcode ends, ?_, counter⟩
      have known : Opcode.ofByte? e.nextByte = some op := by
        rw [show e.nextByte = op.byte from opcode, Opcode.ofByte?_byte]
      rw [heard, List.foldl_cons, hear, known]
      rfl
    | @operand p kind collecting next =>
      have known : p.open? = some ⟨op, p.position, p.collected.length⟩ := p.open?_eq opcode
      rw [marks_cons_of_isMark rfl, counters_cons_of_isMark rfl, open?, collecting,
        Option.bind_some, known]
      rw [show (p.collect e.nextByte).collected.length = _ from List.length_append] at ends heard
      refine ⟨.operand ?_ ?_ ends, heard, counter⟩
      . rw [← next, Pending.nextKind, show p.instruction = op.instruction from instruction]
        rfl
      . exact (decoding p collecting).position_add.symm
  . -- nothing complete is ever left pending
    rw [decoding.not_ready pending] at ready
    contradiction

theorem open?_run {e : Engine} (standard : e.instructions = .standard) (decoding : e.Decoding)
    (n : Nat) : (e.run n).engine.open? = (e.run n).events.foldl hear e.open? := by
  induction n generalizing e with
  | zero => rfl
  | succ n ih =>
    have first := (reports_cycle standard decoding).2.1
    have rest := ih (e.instructions_cycle.trans standard) decoding.cycle
    rw [run_succ]
    simp only [Reaction.andThen, List.foldl_append]
    rw [rest, first]

theorem open?_perform {e : Engine} (standard : e.instructions = .standard) (decoding : e.Decoding)
    (operation : Operation) :
    let done := e.perform operation
    done.engine.open? = if operation.drops then none else done.events.foldl hear e.open? := by
  cases operation with
  | cycle => exact (reports_cycle standard decoding).2.1
  | step =>
    have known := open?_run standard decoding e.stepLength
    rw [e.completesIn_step.run_eq] at known
    exact known
  | run n => exact open?_run standard decoding n
  | loadImage image =>
    simp only [perform, Reaction.map, Operation.drops, open?, engine_loadImage]
    rfl
  | _ => rfl

theorem open?_performAll {e : Engine} (standard : e.instructions = .standard)
    (decoding : e.Decoding) (operations : List Operation) :
    (e.performAll operations).engine.open? = e.openAfter e.open? operations := by
  induction operations generalizing e with
  | nil => rfl
  | cons operation rest ih =>
    have setup := lawful_sameSetup.perform operation e
    rw [engine_performAll_cons, openAfter, ← open?_perform standard decoding]
    apply ih
    . rw [setup.instructions, standard]
    . exact lawful_decoding.perform operation e decoding

theorem isSome_open? {e : Engine} (standard : e.instructions = .standard)
    (decoding : e.Decoding) : e.open?.isSome = e.pending.isSome := by
  cases pending : e.pending with
  | none =>
    rw [open?, pending]
    rfl
  | some p =>
    obtain ⟨op, opcode, -⟩ := instruction_of_standard standard (decoding p pending).lookup_opcode
    rw [open?, pending, Option.bind_some, p.open?_eq opcode]
    rfl

theorem marks_load (program : List UInt8) (e : Engine) : marks (e.load program).events = [] := by
  have changes (f : UInt8 × UInt8 → Event) (silent : ∀ cell, (f cell).kind.isMark = false) :
      marks (.reset :: (Memory.addresses.zip (program.take 256)).map f) = [] :=
    marks_map silent _
  rw [load, marks_append, changes _ fun _ => rfl]
  rfl

theorem marks_of_isEdit {operation : Operation} (edit : operation.isEdit) (e : Engine) :
    marks (e.perform operation).events = [] := by
  cases operation with
  | cycle | step | run => contradiction
  | load program => exact e.marks_load program
  | loadImage image =>
    simp only [perform, Reaction.map, loadImage, events_writeCells, marks_append]
    rw [e.marks_load, marks_map (fun _ => rfl)]
    rfl
  | _ => rfl

theorem cycle_keeps_protocol (config : Config) (operations : List Operation) :
    let e := ((new config).performAll operations).engine
    let o := (new config).openAfter none operations
    e.pending.isSome = o.isSome ∧
      Decodes e.nextByte e.machine.programCounter o (marks e.cycle.events) ∧
      counters e.cycle.events = counterReports e.cycle ∧
      ∀ edit, edit.isEdit → marks (e.perform edit).events = [] := by
  intro e o
  have standard : e.instructions = .standard :=
    (lawful_sameSetup.performAll operations (new config)).instructions
  have decoding : e.Decoding :=
    lawful_decoding.performAll operations (new config) (decoding_of_idle rfl)
  have known : e.open? = o :=
    open?_performAll rfl (decoding_of_idle rfl) operations
  obtain ⟨decodes, -, counter⟩ := reports_cycle standard decoding
  rw [known] at decodes
  refine ⟨?_, decodes, counter, fun _ edit => marks_of_isEdit edit e⟩
  rw [← known, isSome_open? standard decoding]

def interruptedHistory : List Operation :=
  [.setMemory 255 0x01, .setProgramCounter 255, .cycle, .setMemory 0 9, .cycle,
    .setVideoMemory 3 7]

theorem cycle_keeps_protocol_of_interrupted :
    let e := ((new {}).performAll interruptedHistory).engine
    let o : OpenInstruction := ⟨.movConstReg, 255, 1⟩
    (new {}).openAfter none interruptedHistory = some o ∧
      e.nextByte = 0 ∧ e.machine.programCounter = 1 ∧
      Decodes 0 1 (some o)
        [.parameterParsed .register 0 1, .instructionExecuted 0x01] ∧
      counters e.cycle.events = [2] ∧
      marks (e.perform .reset).events = [] := by
  intro e o
  have keeps := cycle_keeps_protocol {} interruptedHistory
  have known : (new {}).openAfter none interruptedHistory = some o := by decide +kernel
  have decodes : Decodes _ _ _ (marks e.cycle.events) := keeps.2.1
  have counter : counters e.cycle.events = _ := keeps.2.2.1
  have byte : e.nextByte = 0 := by decide +kernel
  have place : e.machine.programCounter = 1 := by decide +kernel
  have reports : marks e.cycle.events =
      [.parameterParsed .register 0 1, .instructionExecuted 0x01] := by decide +kernel
  have reported : counterReports e.cycle = [2] := by decide +kernel
  rw [known, byte, place, reports] at decodes
  rw [reported] at counter
  exact ⟨known, byte, place, decodes, counter, keeps.2.2.2 .reset rfl⟩

end Engine
end ByteMachine
