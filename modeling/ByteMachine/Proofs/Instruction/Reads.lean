import ByteMachine.Proofs.Instruction

/-!
This module contains what decides how an instruction goes on: a standard instruction looks at the
memory, the registers and the carry and at nothing else, so that it runs alike on all machines that
have these in common.
-/

namespace ByteMachine

structure Completion.Agree (R : Execution → Execution → Prop) (c d : Completion α) : Prop where
  value : c.value = d.value
  events : c.events = d.events
  execution : R c.execution d.execution

namespace Routine

/--
Whenever the routine looks at the machine, it goes on in the same way in all states with the same
view.
-/
def LooksAt (view : Execution → β) : Routine α → Prop
  | .done _ => True
  | .fail _ => True
  | .inspect next => (∀ x y, view x = view y → next x = next y) ∧ ∀ x, (next x).LooksAt view
  | .perform _ next => ∀ result, (next result).LooksAt view

section LooksAt

variable {view : Execution → β}

@[simp]
theorem looksAt_pure (value : α) : (pure value : Routine α).LooksAt view := trivial

@[simp]
theorem looksAt_fail (fault : Fault) : (fail fault : Routine α).LooksAt view := trivial

@[simp]
theorem looksAt_ofExcept (e : Except Fault α) : (ofExcept e).LooksAt view := by
  cases e <;> trivial

@[simp]
theorem looksAt_attempt (action : Action) : (attempt action).LooksAt view :=
  fun result => looksAt_ofExcept result

@[simp]
theorem looksAt_attempt_bind (action : Action) (f : Unit → Routine α) :
    (attempt action >>= f).LooksAt view ↔ (f ()).LooksAt view := by
  constructor
  . intro looks
    exact looks (.ok ())
  . intro looks result
    cases result with
    | ok => exact looks
    | error fault => trivial

@[simp]
theorem looksAt_liftM_bind (e : Except Fault α) (f : α → Routine γ) :
    (liftM e >>= f : Routine γ).LooksAt view ↔
      ∀ value, e = .ok value → (f value).LooksAt view := by
  cases e with
  | ok value =>
    have : (liftM (Except.ok value : Except Fault α) >>= f : Routine γ) = f value := rfl
    simp [this]
  | error fault =>
    have : (liftM (Except.error fault : Except Fault α) >>= f : Routine γ) = fail fault := rfl
    simp [this]

@[simp]
theorem looksAt_ite (c : Prop) [Decidable c] (a b : Routine α) :
    (if c then a else b).LooksAt view ↔ if c then a.LooksAt view else b.LooksAt view := by
  split <;> rfl

theorem LooksAt.run_of_within {R : Execution → Execution → Prop} {P : Action → Prop}
    {Q : Fault → Prop} (sees : ∀ {x y}, R x y → view x = view y)
    (perform : ∀ {x y}, R x y → ∀ action, P action → (x.perform action).Agree R (y.perform action))
    (faults : ∀ (x : Execution) action fault, P action →
      (x.perform action).value = .error fault → Q fault)
    {routine : Routine α} (looks : routine.LooksAt view) (within : routine.Within P Q)
    {x y : Execution} (related : R x y) : (routine.run x).Agree R (routine.run y) := by
  induction routine generalizing x y with
  | done value => exact ⟨rfl, rfl, related⟩
  | fail fault => exact ⟨rfl, rfl, related⟩
  | inspect next ih =>
    have same : next x = next y := looks.1 x y (sees related)
    simp only [Routine.run, ← same]
    exact ih x (looks.2 x) (within x) related
  | perform action next ih =>
    have first := perform related action within.1
    have rest := ih _ (looks (x.perform action).value)
      (within.2 _ fun fault => faults x action fault within.1) first.execution
    simp only [Routine.run, Completion.after, ← first.value, first.events]
    exact ⟨rest.value, congrArg ((y.perform action).events ++ ·) rest.events, rest.execution⟩

theorem LooksAt.run {R : Execution → Execution → Prop}
    (sees : ∀ {x y}, R x y → view x = view y)
    (perform : ∀ {x y}, R x y → ∀ action, (x.perform action).Agree R (y.perform action))
    {routine : Routine α} (looks : routine.LooksAt view) {x y : Execution} (related : R x y) :
    (routine.run x).Agree R (routine.run y) :=
  looks.run_of_within (R := R) sees (fun related action _ => perform related action)
    (fun _ _ _ _ _ => trivial) routine.within_true related

end LooksAt

end Routine

def Execution.operands (x : Execution) : Memory × RegisterFile × Bool :=
  (x.machine.memory, x.machine.registers, x.machine.carry)

namespace Routine

@[simp]
theorem looksAt_register_bind (r : Register) (f : UInt8 → Routine α) :
    (register r >>= f).LooksAt Execution.operands ↔
      ∀ x : Execution, (f (x.machine.register r)).LooksAt Execution.operands := by
  refine and_iff_right ?_
  intro x y same
  have registers : x.machine.registers = y.machine.registers := congrArg (·.2.1) same
  exact congrArg (fun registers => f (registers.get r)) registers

@[simp]
theorem looksAt_memory_bind (address : UInt8) (f : UInt8 → Routine α) :
    (memory address >>= f).LooksAt Execution.operands ↔
      ∀ x : Execution, (f (x.machine.memory.get address)).LooksAt Execution.operands := by
  refine and_iff_right ?_
  intro x y same
  have memory : x.machine.memory = y.machine.memory := congrArg (·.1) same
  exact congrArg (fun memory => f (memory.get address)) memory

@[simp]
theorem looksAt_carry_bind (f : Bool → Routine α) :
    (carry >>= f).LooksAt Execution.operands ↔
      ∀ x : Execution, (f x.machine.carry).LooksAt Execution.operands := by
  refine and_iff_right ?_
  intro x y same
  have carry : x.machine.carry = y.machine.carry := congrArg (·.2.2) same
  exact congrArg f carry

theorem looksAt_jumpWhen {view : Execution → β} (condition : Bool) (index : Nat)
    (ops : Operands) : (jumpWhen condition index ops).LooksAt view := by
  cases condition <;> simp [jumpWhen, jump]

end Routine

theorem Opcode.looksAt_execute (op : Opcode) (ops : Operands) :
    (op.execute ops).LooksAt Execution.operands := by
  cases op <;>
    simp [execute, Routine.pairWithCarry, Routine.constWithCarry, Routine.pair,
      Routine.pairNonzero, Routine.unaryWithCarry, Routine.unary, Routine.looksAt_jumpWhen,
      Routine.setRegister, Routine.setCarry, Routine.writeMemory, Routine.writeVideoMemory,
      Routine.call, Routine.ret, Routine.print, Routine.publish,
      Routine.selectBank, Routine.selectPalette]

end ByteMachine
