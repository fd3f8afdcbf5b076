import ByteMachine.Routine

/-!
This module contains the laws of running a routine: what holds before it and is kept by every
action holds after it, the limits of the machine stay as they are, and the program counter only
moves with a jump.
-/

namespace ByteMachine
namespace Execution

theorem programCounter_perform (x : Execution) (action : Action)
    (h : (x.perform action).execution.advanceSuppressed = false) :
    x.advanceSuppressed = false ∧
      (x.perform action).execution.machine.programCounter = x.machine.programCounter := by
  cases action with
  | setRegister r value => exact ⟨h, rfl⟩
  | writeMemory address value => exact ⟨h, rfl⟩
  | writeVideoMemory address value => exact ⟨h, rfl⟩
  | publish event => exact ⟨h, rfl⟩
  | setCarry value =>
    simp only [perform] at h ⊢
    split at h
    . exact ⟨h, by simp_all⟩
    . exact ⟨h, by simp_all [change]⟩
  | jump target => simp [perform, jump] at h
  | call target =>
    simp only [perform] at h ⊢
    split at h
    . simp [jump] at h
    . exact ⟨h, by simp_all⟩
  | ret =>
    simp only [perform] at h
    split at h <;> simp [jump] at h
  | selectBank bank =>
    simp only [perform, tryChange] at h ⊢
    split at h
    . next machine selected =>
      obtain ⟨-, rfl⟩ := Machine.selectBank_eq_ok_iff.1 selected
      exact ⟨h, by simp [change]⟩
    . exact ⟨h, by simp_all⟩
  | selectPalette palette =>
    simp only [perform, tryChange] at h ⊢
    split at h
    . next machine selected =>
      obtain ⟨-, rfl⟩ := Machine.selectPalette_eq_ok_iff.1 selected
      exact ⟨h, by simp [change]⟩
    . exact ⟨h, by simp_all⟩

@[simp]
theorem config_perform (x : Execution) (action : Action) :
    (x.perform action).execution.machine.config = x.machine.config := by
  cases action with
  | setRegister r value => rfl
  | writeMemory address value => rfl
  | writeVideoMemory address value => rfl
  | publish event => rfl
  | jump target => rfl
  | setCarry value =>
    simp only [perform]
    split <;> rfl
  | call target =>
    simp only [perform]
    split
    . next pushed =>
      obtain ⟨callStack, push, rfl⟩ := Machine.pushReturn_eq_ok_iff.1 pushed
      obtain ⟨-, depth, -⟩ := CallStack.push_eq_ok_iff.1 push
      simp [jump, Machine.config, depth]
    . rfl
  | ret =>
    simp only [perform]
    split
    . next popped =>
      obtain ⟨callStack, pop, rfl⟩ := Machine.popReturn_eq_ok_iff.1 popped
      simp [jump, Machine.config, CallStack.depth_of_pop pop]
    . rfl
  | selectBank bank =>
    simp only [perform, tryChange]
    split
    . next selected =>
      obtain ⟨-, rfl⟩ := Machine.selectBank_eq_ok_iff.1 selected
      rfl
    . rfl
  | selectPalette palette =>
    simp only [perform, tryChange]
    split
    . next selected =>
      obtain ⟨-, rfl⟩ := Machine.selectPalette_eq_ok_iff.1 selected
      rfl
    . rfl

end Execution

namespace Routine

@[simp]
theorem run_attempt (action : Action) (x : Execution) :
    (attempt action).run x = x.perform action := by
  simp only [attempt, run, Completion.after]
  cases value : (x.perform action).value with
  | ok => simp [ofExcept, run, ← value]
  | error fault => simp [ofExcept, run, ← value]

/--
All actions the routine may come to perform and all faults it may end in are among these, whatever
it sees and whichever of its actions are refused.
-/
def Within (P : Action → Prop) (Q : Fault → Prop) : Routine α → Prop
  | .done _ => True
  | .fail fault => Q fault
  | .inspect next => ∀ x, (next x).Within P Q
  | .perform action next =>
    P action ∧ ∀ result, (∀ fault, result = .error fault → Q fault) → (next result).Within P Q

section Within

variable {P : Action → Prop} {Q : Fault → Prop}

@[simp]
theorem within_pure (value : α) : (pure value : Routine α).Within P Q := trivial

@[simp]
theorem within_fail (fault : Fault) : (fail fault : Routine α).Within P Q ↔ Q fault := Iff.rfl

@[simp]
theorem within_ofExcept (e : Except Fault α) :
    (ofExcept e).Within P Q ↔ ∀ fault, e = .error fault → Q fault := by
  cases e <;> simp [ofExcept, Within]

@[simp]
theorem within_liftM_bind (e : Except Fault α) (f : α → Routine β) :
    (liftM e >>= f : Routine β).Within P Q ↔
      (∀ value, e = .ok value → (f value).Within P Q) ∧ ∀ fault, e = .error fault → Q fault := by
  cases e with
  | ok value =>
    have : (liftM (Except.ok value : Except Fault α) >>= f : Routine β) = f value := rfl
    simp [this]
  | error fault =>
    have : (liftM (Except.error fault : Except Fault α) >>= f : Routine β) = fail fault := rfl
    simp [this]

@[simp]
theorem within_register_bind (r : Register) (f : UInt8 → Routine β) :
    (register r >>= f).Within P Q ↔ ∀ x : Execution, (f (x.machine.register r)).Within P Q :=
  Iff.rfl

@[simp]
theorem within_memory_bind (address : UInt8) (f : UInt8 → Routine β) :
    (memory address >>= f).Within P Q ↔
      ∀ x : Execution, (f (x.machine.memory.get address)).Within P Q :=
  Iff.rfl

@[simp]
theorem within_carry_bind (f : Bool → Routine β) :
    (carry >>= f).Within P Q ↔ ∀ x : Execution, (f x.machine.carry).Within P Q :=
  Iff.rfl

@[simp]
theorem within_attempt (action : Action) : (attempt action).Within P Q ↔ P action := by
  simp [attempt, Within]

@[simp]
theorem within_attempt_bind (action : Action) (f : Unit → Routine β) :
    (attempt action >>= f).Within P Q ↔ P action ∧ (f ()).Within P Q := by
  constructor
  . intro h
    exact ⟨h.1, h.2 (.ok ()) (by simp)⟩
  . intro h
    refine ⟨h.1, ?_⟩
    intro result faults
    cases result with
    | ok => exact h.2
    | error fault => exact faults fault rfl

@[simp]
theorem within_ite (c : Prop) [Decidable c] (a b : Routine α) :
    (if c then a else b).Within P Q ↔ if c then a.Within P Q else b.Within P Q := by
  split <;> rfl

theorem Within.run {R : Execution → List Event → Execution → Prop} (refl : ∀ x, R x [] x)
    (trans : ∀ x y z first second, R x first y → R y second z → R x (first ++ second) z)
    (perform : ∀ (x : Execution) action, P action →
      R x (x.perform action).events (x.perform action).execution)
    (faults : ∀ (x : Execution) action fault, P action →
      (x.perform action).value = .error fault → Q fault)
    {routine : Routine α} (h : routine.Within P Q) (x : Execution) :
    R x (routine.run x).events (routine.run x).execution ∧
      ∀ fault, (routine.run x).value = .error fault → Q fault := by
  induction routine generalizing x with
  | done value => exact ⟨refl x, by simp [Routine.run]⟩
  | fail fault =>
    refine ⟨refl x, ?_⟩
    intro fault' same
    cases same
    exact h
  | inspect next ih => exact ih x (h x) x
  | perform action next ih =>
    have first := perform x action h.1
    have rest := ih _ (h.2 _ fun fault => faults x action fault h.1) (x.perform action).execution
    exact ⟨trans _ _ _ _ _ first rest.1, rest.2⟩

end Within

theorem within_true (routine : Routine α) :
    routine.Within (fun _ => True) (fun _ => True) := by
  induction routine with
  | done value => trivial
  | fail fault => trivial
  | inspect next ih => exact ih
  | perform action next ih => exact ⟨trivial, fun result _ => ih result⟩

theorem run_invariant {P : Execution → Prop}
    (keep : ∀ x action, P x → P (x.perform action).execution) (routine : Routine α)
    (x : Execution) (h : P x) : P (routine.run x).execution := by
  have kept := routine.within_true.run (R := fun x _ y => P x → P y) (fun _ h => h)
    (fun _ _ _ _ _ first second h => second (first h)) (fun x action _ => keep x action)
    (fun _ _ _ _ _ => trivial) x
  exact kept.1 h

theorem programCounter_run (routine : Routine α) (x : Execution)
    (h : (routine.run x).execution.advanceSuppressed = false) :
    (routine.run x).execution.machine.programCounter = x.machine.programCounter := by
  revert h
  apply run_invariant (P := fun y =>
    y.advanceSuppressed = false → y.machine.programCounter = x.machine.programCounter)
  . intro y action ih h
    have := y.programCounter_perform action h
    rw [this.2, ih this.1]
  . intros
    rfl

@[simp]
theorem config_run (routine : Routine α) (x : Execution) :
    (routine.run x).execution.machine.config = x.machine.config := by
  apply run_invariant (P := fun y => y.machine.config = x.machine.config)
  . intro y action kept
    rw [Execution.config_perform, kept]
  . rfl

end Routine
end ByteMachine
