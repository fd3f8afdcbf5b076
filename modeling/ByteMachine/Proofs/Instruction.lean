import ByteMachine.Engine.Pending
import ByteMachine.InstructionSet
import ByteMachine.Proofs.Routine
import Mathlib.Data.List.Forall2

/-!
This module contains what each standard instruction is allowed to do when its operand bytes are
legal: the actions it may perform and the faults it may end in.
-/

namespace ByteMachine

def OperandKind.Accept (kinds : List OperandKind) (bytes : List UInt8) : Prop :=
  List.Forall₂ (fun kind byte => kind.accepts byte) kinds bytes

namespace OperandKind

@[simp]
theorem accept_nil_iff {bytes : List UInt8} : Accept [] bytes ↔ bytes = [] :=
  List.forall₂_nil_left_iff

section Shapes

variable {kinds : List OperandKind} {bytes : List UInt8}

theorem accept_constant_cons_iff :
    Accept (.constant :: kinds) bytes ↔
      ∃ value rest, Accept kinds rest ∧ bytes = value :: rest := by
  simp [Accept, List.forall₂_cons_left_iff]

theorem accept_memoryAddress_cons_iff :
    Accept (.memoryAddress :: kinds) bytes ↔
      ∃ address rest, Accept kinds rest ∧ bytes = address :: rest := by
  simp [Accept, List.forall₂_cons_left_iff]

theorem accept_register_cons_iff :
    Accept (.register :: kinds) bytes ↔
      ∃ (r : Register) (rest : _), Accept kinds rest ∧ bytes = r.toByte :: rest := by
  simp only [Accept, List.forall₂_cons_left_iff, accepts_register_iff]
  constructor
  . rintro ⟨_, rest, ⟨r, rfl⟩, legal, rfl⟩
    exact ⟨r, rest, legal, rfl⟩
  . rintro ⟨r, rest, legal, rfl⟩
    exact ⟨_, rest, ⟨r, rfl⟩, legal, rfl⟩

theorem accept_registerPair_cons_iff :
    Accept (.registerPair :: kinds) bytes ↔
      ∃ (p : RegisterPair) (rest : _), Accept kinds rest ∧ bytes = p.toByte :: rest := by
  simp only [Accept, List.forall₂_cons_left_iff, accepts_registerPair_iff]
  constructor
  . rintro ⟨_, rest, ⟨p, rfl⟩, legal, rfl⟩
    exact ⟨p, rest, legal, rfl⟩
  . rintro ⟨p, rest, legal, rfl⟩
    exact ⟨_, rest, ⟨p, rfl⟩, legal, rfl⟩

end Shapes

end OperandKind

namespace Pending

theorem accept_of_validate {p : Pending} (length : p.collected.length = p.required)
    (valid : p.validate = .ok ()) : OperandKind.Accept p.instruction.operands p.collected := by
  rw [OperandKind.Accept, List.forall₂_iff_zip]
  refine ⟨length.symm, ?_⟩
  intro kind byte mem
  simp only [validate] at valid
  split at valid
  . contradiction
  . next none =>
    have := List.find?_eq_none.1 none (kind, byte) mem
    simpa using this

theorem validate_of_accept {p : Pending}
    (accept : OperandKind.Accept p.instruction.operands p.collected) : p.validate = .ok () := by
  rw [OperandKind.Accept, List.forall₂_iff_zip] at accept
  rw [validate]
  split
  . next kind byte found =>
    have mem := List.mem_of_find?_eq_some found
    have refused := List.find?_some found
    simp [accept.2 mem] at refused
  . rfl

theorem execute_cases {p : Pending} (length : p.collected.length = p.required) (m : Machine) :
    (∃ byte kind, p.execute m =
      { value := .error (.operandOutOfRange byte kind), execution := .start m }) ∨
    OperandKind.Accept p.instruction.operands p.collected ∧
      p.execute m = (p.instruction.execute ⟨p.collected⟩).run (.start m) := by
  cases valid : p.validate with
  | ok =>
    refine .inr ⟨accept_of_validate length valid, ?_⟩
    simp only [execute, valid]
  | error fault =>
    have refused := valid
    simp only [validate] at refused
    split at refused
    . next kind byte _ =>
      cases refused
      exact .inl ⟨byte, kind, by simp only [execute, valid]⟩
    . contradiction

end Pending

namespace Routine

section Families

variable {P : Action → Prop} {Q : Fault → Prop} {rest : List UInt8}

theorem within_pairWithCarry (operation : UInt8 → UInt8 → UInt8 × Bool) (p : RegisterPair)
    (register : ∀ r value, P (.setRegister r value)) (carry : ∀ value, P (.setCarry value)) :
    (pairWithCarry operation ⟨p.toByte :: rest⟩).Within P Q := by
  simp [pairWithCarry, setRegister, setCarry, register, carry]

theorem within_constWithCarry (operation : UInt8 → UInt8 → UInt8 × Bool) (value : UInt8)
    (r : Register) (register : ∀ r value, P (.setRegister r value))
    (carry : ∀ value, P (.setCarry value)) :
    (constWithCarry operation ⟨value :: r.toByte :: rest⟩).Within P Q := by
  simp [constWithCarry, setRegister, setCarry, register, carry]

theorem within_pair (operation : UInt8 → UInt8 → UInt8) (p : RegisterPair)
    (register : ∀ r value, P (.setRegister r value)) :
    (pair operation ⟨p.toByte :: rest⟩).Within P Q := by
  simp [pair, setRegister, register]

theorem within_pairNonzero (operation : UInt8 → UInt8 → UInt8) (p : RegisterPair)
    (register : ∀ r value, P (.setRegister r value)) (fault : Q .divideByZero) :
    (pairNonzero operation ⟨p.toByte :: rest⟩).Within P Q := by
  simp [pairNonzero, setRegister, register, fault]

theorem within_unaryWithCarry (operation : UInt8 → UInt8 × Bool) (r : Register)
    (register : ∀ r value, P (.setRegister r value)) (carry : ∀ value, P (.setCarry value)) :
    (unaryWithCarry operation ⟨r.toByte :: rest⟩).Within P Q := by
  simp [unaryWithCarry, setRegister, setCarry, register, carry]

theorem within_unary (operation : UInt8 → UInt8) (r : Register)
    (register : ∀ r value, P (.setRegister r value)) :
    (unary operation ⟨r.toByte :: rest⟩).Within P Q := by
  simp [unary, setRegister, register]

theorem within_jumpWhen (condition : Bool) {index : Nat} {ops : Operands} {target : UInt8}
    (operand : ops.byte index = .ok target) (jump : P (.jump target)) :
    (jumpWhen condition index ops).Within P Q := by
  cases condition <;> simp [jumpWhen, Routine.jump, operand, jump]

end Families

end Routine

namespace Opcode

def writesMemory : Opcode → Bool
  | .movRegMem | .movConstMem | .storeIndirect => true
  | _ => false

def targetIndex? : Opcode → Option Nat
  | .jmp | .jmpCarry | .jmpNoCarry | .call => some 0
  | .jmpZero | .jmpNotZero => some 1
  | _ => none

def Permits (op : Opcode) (ops : Operands) : Action → Prop
  | .setRegister _ _ | .setCarry _ | .writeVideoMemory _ _ => True
  | .selectBank _ => op = .selectBank
  | .selectPalette _ => op = .selectPalette
  | .writeMemory _ _ => op.writesMemory
  | .jump target => op ≠ .call ∧ op.targetIndex?.bind (ops.bytes[·]?) = some target
  | .call target => op = .call ∧ op.targetIndex?.bind (ops.bytes[·]?) = some target
  | .ret => op = .ret
  | .publish event => ∃ text, event = .printRequested text

def MayRaise (op : Opcode) : Fault → Prop
  | .operandOutOfRange _ _ => False
  | .parameterOutOfRange _ _ => op = .selectBank ∨ op = .selectPalette
  | .divideByZero => op = .div ∨ op = .mod
  | .callStackOverflow _ => op = .call
  | .callStackUnderflow => op = .ret

theorem mayRaise_perform {op : Opcode} {ops : Operands} {action : Action} {fault : Fault}
    (x : Execution) (permits : op.Permits ops action)
    (refused : (x.perform action).value = .error fault) : op.MayRaise fault := by
  cases action with
  | setRegister r value => simp [Execution.perform, Execution.change] at refused
  | writeMemory address value => simp [Execution.perform, Execution.change] at refused
  | writeVideoMemory address value => simp [Execution.perform, Execution.change] at refused
  | setCarry value =>
    simp only [Execution.perform] at refused
    split at refused <;> simp [Execution.change] at refused
  | jump target => simp [Execution.perform, Execution.jump] at refused
  | publish event => simp [Execution.perform] at refused
  | call target =>
    simp only [Execution.perform] at refused
    split at refused
    . simp [Execution.jump] at refused
    . next full =>
      cases refused
      obtain ⟨-, rfl⟩ := Machine.pushReturn_eq_error_iff.1 full
      exact permits.1
  | ret =>
    simp only [Execution.perform] at refused
    split at refused
    . simp [Execution.jump] at refused
    . next empty =>
      cases refused
      obtain ⟨-, rfl⟩ := Machine.popReturn_eq_error_iff.1 empty
      exact permits
  | selectBank bank =>
    simp only [Execution.perform, Execution.tryChange] at refused
    split at refused
    . simp [Execution.change] at refused
    . next above =>
      cases refused
      obtain ⟨-, rfl⟩ := Machine.selectBank_eq_error_iff.1 above
      exact .inl permits
  | selectPalette palette =>
    simp only [Execution.perform, Execution.tryChange] at refused
    split at refused
    . simp [Execution.change] at refused
    . next above =>
      cases refused
      obtain ⟨-, rfl⟩ := Machine.selectPalette_eq_error_iff.1 above
      exact .inr permits

theorem within_execute {op : Opcode} {ops : Operands}
    (accept : OperandKind.Accept op.operands ops.bytes) :
    (op.execute ops).Within (op.Permits ops) op.MayRaise := by
  have register : ∀ r value, op.Permits ops (.setRegister r value) := fun _ _ => trivial
  have carry : ∀ value, op.Permits ops (.setCarry value) := fun _ => trivial
  obtain ⟨bytes⟩ := ops
  -- the legal operand bytes have one shape for each list of kinds
  cases op <;>
    simp only [operands, OperandKind.accept_nil_iff, OperandKind.accept_constant_cons_iff,
      OperandKind.accept_memoryAddress_cons_iff, OperandKind.accept_register_cons_iff,
      OperandKind.accept_registerPair_cons_iff] at accept <;>
    rw [execute]
  case nop => exact Routine.within_pure ()
  case clearCarry | setCarry => exact (Routine.within_attempt _).2 trivial
  case ret => exact (Routine.within_attempt _).2 rfl
  case add | sub | mul =>
    obtain ⟨p, _, rfl, rfl⟩ := accept
    exact Routine.within_pairWithCarry _ p register carry
  case and | or | xor =>
    obtain ⟨p, _, rfl, rfl⟩ := accept
    exact Routine.within_pair _ p register
  case div | mod =>
    obtain ⟨p, _, rfl, rfl⟩ := accept
    exact Routine.within_pairNonzero _ p register (by simp [MayRaise])
  case addConst | subConst =>
    obtain ⟨value, _, ⟨r, _, rfl, rfl⟩, rfl⟩ := accept
    exact Routine.within_constWithCarry _ value r register carry
  case inc | dec | shl | shr =>
    obtain ⟨r, _, rfl, rfl⟩ := accept
    exact Routine.within_unaryWithCarry _ r register carry
  case not =>
    obtain ⟨r, _, rfl, rfl⟩ := accept
    exact Routine.within_unary _ r register
  case jmp =>
    obtain ⟨target, _, rfl, rfl⟩ := accept
    exact Routine.within_jumpWhen _ rfl (by simp [Permits, targetIndex?])
  case jmpCarry | jmpNoCarry =>
    obtain ⟨target, _, rfl, rfl⟩ := accept
    intro x
    exact Routine.within_jumpWhen _ rfl (by simp [Permits, targetIndex?])
  case jmpZero | jmpNotZero =>
    obtain ⟨r, _, ⟨target, _, rfl, rfl⟩, rfl⟩ := accept
    simp only [Routine.within_liftM_bind, Operands.register_zero]
    refine ⟨?_, by simp⟩
    intro s _ x
    exact Routine.within_jumpWhen _ rfl (by simp [Permits, targetIndex?])
  case movConstReg | movMemReg =>
    obtain ⟨value, _, ⟨r, _, rfl, rfl⟩, rfl⟩ := accept
    simp [Routine.setRegister, register]
  case movRegMem | videoStore =>
    obtain ⟨r, _, ⟨address, _, rfl, rfl⟩, rfl⟩ := accept
    simp [Routine.writeMemory, Routine.writeVideoMemory, Permits, writesMemory]
  case movRegReg =>
    obtain ⟨p, _, rfl, rfl⟩ := accept
    simp [Routine.setRegister, register]
  case movConstMem =>
    obtain ⟨value, _, ⟨address, _, rfl, rfl⟩, rfl⟩ := accept
    simp [Routine.writeMemory, Permits, writesMemory]
  case loadIndirect | storeIndirect =>
    obtain ⟨r, _, ⟨s, _, rfl, rfl⟩, rfl⟩ := accept
    simp [Routine.setRegister, Routine.writeMemory, Permits, writesMemory]
  case call =>
    obtain ⟨target, _, rfl, rfl⟩ := accept
    simp [Routine.call, Permits, targetIndex?]
  case print | printChar =>
    obtain ⟨r, _, rfl, rfl⟩ := accept
    simp [Routine.print, Routine.publish, Permits]
  case selectBank | selectPalette =>
    obtain ⟨value, _, rfl, rfl⟩ := accept
    simp [Routine.selectBank, Routine.selectPalette, Permits]

theorem run_execute {op : Opcode} {ops : Operands}
    {R : Execution → List Event → Execution → Prop} (refl : ∀ x, R x [] x)
    (trans : ∀ x y z first second, R x first y → R y second z → R x (first ++ second) z)
    (perform : ∀ (x : Execution) action, op.Permits ops action →
      R x (x.perform action).events (x.perform action).execution)
    (accept : OperandKind.Accept op.operands ops.bytes) (x : Execution) :
    R x ((op.execute ops).run x).events ((op.execute ops).run x).execution ∧
      ∀ fault, ((op.execute ops).run x).value = .error fault → op.MayRaise fault := by
  apply (within_execute accept).run refl trans perform
  intro x action fault permits
  exact mayRaise_perform x permits

end Opcode
end ByteMachine
