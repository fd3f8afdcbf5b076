import ByteMachine.Proofs.Instruction

/-!
This module contains what a standard instruction tells while it executes: nothing about how far it
has come, and where the program counter goes exactly if it moves it.
-/

namespace ByteMachine

def EventKind.isMark : EventKind → Bool
  | .instructionParseBegun | .parameterParsed | .instructionExecuted | .invalidByteParsed => true
  | .error => true
  | _ => false

def marks (events : List Event) : List Event :=
  events.filter (·.kind.isMark)

def counters (events : List Event) : List UInt8 :=
  events.filterMap fun
    | .programCounterChanged value => some value
    | _ => none

@[simp]
theorem marks_nil : marks [] = [] := rfl

@[simp]
theorem counters_nil : counters [] = [] := rfl

@[simp]
theorem marks_append (first second : List Event) :
    marks (first ++ second) = marks first ++ marks second :=
  List.filter_append first second

@[simp]
theorem counters_append (first second : List Event) :
    counters (first ++ second) = counters first ++ counters second :=
  List.filterMap_append

@[simp]
theorem marks_programCounterChanged (value : UInt8) (events : List Event) :
    marks (.programCounterChanged value :: events) = marks events := rfl

@[simp]
theorem counters_programCounterChanged (value : UInt8) (events : List Event) :
    counters (.programCounterChanged value :: events) = value :: counters events := rfl

theorem marks_map {f : α → Event} (silent : ∀ a, (f a).kind.isMark = false) (list : List α) :
    marks (list.map f) = [] := by
  rw [marks, List.filter_eq_nil_iff]
  intro event mem
  obtain ⟨a, -, rfl⟩ := List.mem_map.1 mem
  simp [silent]

theorem marks_cons_of_isMark {event : Event} (mark : event.kind.isMark) (events : List Event) :
    marks (event :: events) = event :: marks events := by
  simp [marks, mark]

theorem counters_cons_of_isMark {event : Event} (mark : event.kind.isMark) (events : List Event) :
    counters (event :: events) = counters events := by
  cases event <;> first | rfl | cases mark

namespace Routine

theorem run_jumpWhen {condition : Bool} {index : Nat} {ops : Operands} {target : UInt8}
    (operand : ops.byte index = .ok target) (x : Execution) :
    (jumpWhen condition index ops).run x =
      if condition then x.jump target else { value := .ok (), execution := x } := by
  rw [jumpWhen, operand]
  cases condition <;> rfl

end Routine

namespace Opcode

theorem marks_perform {op : Opcode} {ops : Operands} (x : Execution) {action : Action}
    (permits : op.Permits ops action) : marks (x.perform action).events = [] := by
  cases action with
  | publish event =>
    obtain ⟨text, rfl⟩ := permits
    rfl
  | setCarry value =>
    simp only [Execution.perform]
    split <;> rfl
  | call target | ret =>
    simp only [Execution.perform]
    split <;> rfl
  | selectBank value | selectPalette value =>
    simp only [Execution.perform, Execution.tryChange]
    split <;> rfl
  | _ => rfl

theorem marks_execute {op : Opcode} (ops : Operands)
    (legal : OperandKind.Accept op.operands ops.bytes) (x : Execution) :
    marks ((op.execute ops).run x).events = [] := by
  have run := run_execute (R := fun _ events _ => marks events = []) (fun _ => rfl)
    (fun _ _ _ first second silent rest => by rw [marks_append, silent, rest, List.append_nil])
    (fun x _ permits => marks_perform x permits) legal x
  exact run.1

structure Unmoved (x : Execution) (events : List Event) (y : Execution) : Prop where
  silent : counters events = []
  suppressed : y.advanceSuppressed = x.advanceSuppressed

theorem unmoved_perform {op : Opcode} {ops : Operands} (straight : op.targetIndex? = none)
    (stays : op ≠ .ret) (x : Execution) {action : Action} (permits : op.Permits ops action) :
    Unmoved x (x.perform action).events (x.perform action).execution := by
  cases action with
  | publish event =>
    obtain ⟨text, rfl⟩ := permits
    exact ⟨rfl, rfl⟩
  | setCarry value =>
    simp only [Execution.perform]
    split <;> exact ⟨rfl, rfl⟩
  | jump target | call target =>
    have := permits.2
    rw [straight] at this
    contradiction
  | ret => exact absurd permits stays
  | selectBank value | selectPalette value =>
    simp only [Execution.perform, Execution.tryChange]
    split <;> exact ⟨rfl, rfl⟩
  | _ => exact ⟨rfl, rfl⟩

theorem unmoved_execute {op : Opcode} (ops : Operands)
    (legal : OperandKind.Accept op.operands ops.bytes) (straight : op.targetIndex? = none)
    (stays : op ≠ .ret) (x : Execution) :
    Unmoved x ((op.execute ops).run x).events ((op.execute ops).run x).execution := by
  have run := run_execute (R := Unmoved) (fun _ => ⟨rfl, rfl⟩)
    (fun _ _ _ first second left right =>
      ⟨by rw [counters_append, left.silent, right.silent, List.append_nil],
        right.suppressed.trans left.suppressed⟩)
    (fun x _ permits => unmoved_perform straight stays x permits) legal x
  exact run.1

end Opcode

inductive Completion.Turns (done : Completion Unit) : Prop where
  | straight (on : done.execution.advanceSuppressed = false) (silent : counters done.events = [])
    (other : done.value ≠ .error .callStackUnderflow)
  | jumped (off : done.execution.advanceSuppressed = true)
    (told : counters done.events = [done.execution.machine.programCounter])
    (executed : done.value = .ok ())
  | stuck (off : done.execution.advanceSuppressed = true) (silent : counters done.events = [])
    (underflow : done.value = .error .callStackUnderflow)

namespace Opcode

theorem turns_jumpWhen (condition : Bool) {index : Nat} {ops : Operands} {target : UInt8}
    (operand : ops.byte index = .ok target) (m : Machine) :
    ((Routine.jumpWhen condition index ops).run (.start m)).Turns := by
  rw [Routine.run_jumpWhen operand]
  cases condition with
  | true => exact .jumped rfl rfl rfl
  | false => exact .straight rfl rfl (by simp)

theorem turns_call (target : UInt8) (m : Machine) :
    ((Routine.call target).run (.start m)).Turns := by
  rw [Routine.call, Routine.run_attempt, Execution.perform]
  split
  . exact .jumped rfl rfl rfl
  . next fault full =>
    obtain ⟨-, rfl⟩ := Machine.pushReturn_eq_error_iff.1 full
    exact .straight rfl rfl (by simp)

theorem turns_ret (m : Machine) : (Routine.ret.run (.start m)).Turns := by
  rw [Routine.ret, Routine.run_attempt, Execution.perform]
  split
  . exact .jumped rfl rfl rfl
  . next fault empty =>
    obtain ⟨-, rfl⟩ := Machine.popReturn_eq_error_iff.1 empty
    exact .stuck rfl rfl rfl

theorem turns_execute {op : Opcode} {bytes : List UInt8}
    (legal : OperandKind.Accept op.operands bytes) (m : Machine) :
    ((op.execute ⟨bytes⟩).run (.start m)).Turns ∧
      (((op.execute ⟨bytes⟩).run (.start m)).value = .error .callStackUnderflow → op = .ret) := by
  have accept : OperandKind.Accept op.operands (Operands.mk bytes).bytes := legal
  have may : ∀ fault, ((op.execute ⟨bytes⟩).run (.start m)).value = .error fault →
      op.MayRaise fault := by
    have run := run_execute (R := fun _ _ _ => True) (fun _ => trivial)
      (fun _ _ _ _ _ _ _ => trivial) (fun _ _ _ => trivial) accept (.start m)
    exact run.2
  refine ⟨?_, may .callStackUnderflow⟩
  have straight : op.targetIndex? = none → op ≠ .ret →
      ((op.execute ⟨bytes⟩).run (.start m)).Turns := by
    intro none stays
    have unmoved := unmoved_execute ⟨bytes⟩ legal none stays (.start m)
    exact .straight unmoved.suppressed unmoved.silent fun underflow => stays (may _ underflow)
  cases op
  case ret => exact turns_ret m
  case call =>
    obtain ⟨target, _, -, rfl⟩ := OperandKind.accept_memoryAddress_cons_iff.1 legal
    exact turns_call target m
  case jmp | jmpCarry | jmpNoCarry =>
    obtain ⟨target, _, -, rfl⟩ := OperandKind.accept_memoryAddress_cons_iff.1 legal
    exact turns_jumpWhen _ rfl m
  case jmpZero | jmpNotZero =>
    obtain ⟨r, _, rest, rfl⟩ := OperandKind.accept_register_cons_iff.1 legal
    obtain ⟨target, _, -, rfl⟩ := OperandKind.accept_memoryAddress_cons_iff.1 rest
    have run : ∀ (f : Register → Routine Unit) rest x,
        (liftM (Operands.register ⟨r.toByte :: rest⟩ 0) >>= f).run x = (f r).run x := by
      intro f rest x
      rw [Operands.register_zero]
      rfl
    simp only [execute, run]
    exact turns_jumpWhen _ rfl m
  all_goals exact straight rfl (by decide)

end Opcode

end ByteMachine
