import ByteMachine.Proofs.Instruction

/-!
This module contains the table of the standard instructions: for each opcode what it changes, in the
arithmetic of the natural numbers, or the fault it ends in. Executing an instruction does what its
row of the table says.
-/

namespace ByteMachine

/--
What an instruction changes. Whatever is not named stays as it is.
-/
structure Effect where
  /-- A register and its new value, which is taken modulo 256. -/
  register : Option (Register × Nat) := none
  cell : Option (UInt8 × UInt8) := none
  videoCell : Option (UInt8 × UInt8) := none
  carry : Option Bool := none
  /-- Where to go on, if not at the next instruction. -/
  target : Option UInt8 := none
  /-- The return addresses, the latest first. -/
  frames : Option (List UInt8) := none
  bank : Option UInt8 := none
  palette : Option UInt8 := none
  output : Option String := none

def Effect.apply (f : Effect) (next : UInt8) (m : Machine) : Machine where
  memory := f.cell.elim m.memory fun (address, value) => m.memory.set address value
  videoMemory := f.videoCell.elim m.videoMemory fun (address, value) =>
    m.videoMemory.set address value
  registers := f.register.elim m.registers fun (r, n) => m.registers.set r (UInt8.ofNat n)
  programCounter := f.target.getD next
  carry := f.carry.getD m.carry
  callStack := { m.callStack with entries := f.frames.getD m.callStack.entries }
  bank := { m.bank with current := f.bank.getD m.bank.current }
  palette := { m.palette with current := f.palette.getD m.palette.current }

def Register.numbered (n : Nat) : Register :=
  ⟨Fin.ofNat 8 n⟩

theorem Register.numbered_index (r : Register) : numbered r.index = r := by
  rw [numbered, Fin.ofNat_val_eq_self]

theorem Register.numbered_toByte (r : Register) : numbered r.toByte.toNat = r := by
  rw [toNat_toByte, numbered_index]

theorem RegisterPair.numbered_source (p : RegisterPair) :
    Register.numbered (p.toByte.toNat / 16) = p.source := by
  rw [p.toNat_toByte.1, Register.numbered_index]

theorem RegisterPair.numbered_destination (p : RegisterPair) :
    Register.numbered (p.toByte.toNat % 16) = p.destination := by
  rw [p.toNat_toByte.2, Register.numbered_index]

/--
The row of the table for an opcode: its effect on a machine, or the fault it ends in. The address
behind the instruction is `next`.
-/
def Opcode.row (op : Opcode) (operands : List UInt8) (next : UInt8) (m : Machine) :
    Except Fault Effect :=
  let first := operands.getD 0 0
  let second := operands.getD 1 0
  -- the registers that the two bytes name, and those that the halves of the first byte name
  let r := Register.numbered first.toNat
  let s := Register.numbered second.toNat
  let source := Register.numbered (first.toNat / 16)
  let destination := Register.numbered (first.toNat % 16)
  let value := fun q => (m.register q).toNat
  match op with
  | .nop => .ok {}
  | .movConstReg => .ok { register := some (s, first.toNat) }
  | .movMemReg => .ok { register := some (s, (m.memory.get first).toNat) }
  | .movRegMem => .ok { cell := some (second, m.register r) }
  | .movRegReg => .ok { register := some (destination, value source) }
  | .movConstMem => .ok { cell := some (second, first) }
  | .loadIndirect => .ok { register := some (s, (m.memory.get (m.register r)).toNat) }
  | .storeIndirect => .ok { cell := some (m.register s, m.register r) }
  | .add => .ok
    { register := some (destination, value destination + value source)
      carry := some (255 < value destination + value source) }
  | .addConst => .ok
    { register := some (s, value s + first.toNat), carry := some (255 < value s + first.toNat) }
  | .sub => .ok
    { register := some (destination, 256 + value destination - value source)
      carry := some (value destination < value source) }
  | .subConst => .ok
    { register := some (s, 256 + value s - first.toNat), carry := some (value s < first.toNat) }
  | .mul => .ok
    { register := some (destination, value destination * value source)
      carry := some (255 < value destination * value source) }
  | .div =>
    if value source = 0 then
      .error .divideByZero
    else
      .ok { register := some (destination, value destination / value source) }
  | .mod =>
    if value source = 0 then
      .error .divideByZero
    else
      .ok { register := some (destination, value destination % value source) }
  | .inc => .ok { register := some (r, value r + 1), carry := some (value r = 255) }
  | .dec => .ok { register := some (r, value r + 255), carry := some (value r = 0) }
  | .and => .ok { register := some (destination, value destination &&& value source) }
  | .or => .ok { register := some (destination, value destination ||| value source) }
  | .xor => .ok { register := some (destination, value destination ^^^ value source) }
  | .not => .ok { register := some (r, 255 - value r) }
  | .shl => .ok { register := some (r, 2 * value r), carry := some (128 ≤ value r) }
  | .shr => .ok { register := some (r, value r / 2), carry := some (value r % 2 = 1) }
  | .jmp => .ok { target := some first }
  | .jmpCarry => .ok { target := if m.carry then some first else none }
  | .jmpNoCarry => .ok { target := if m.carry = false then some first else none }
  | .jmpZero => .ok { target := if value r = 0 then some second else none }
  | .jmpNotZero => .ok { target := if value r ≠ 0 then some second else none }
  | .call =>
    if m.callStack.entries.length < m.callStack.depth then
      .ok { target := some first, frames := some (next :: m.callStack.entries) }
    else
      .error (.callStackOverflow m.callStack.depth)
  | .ret =>
    match m.callStack.entries with
    | [] => .error .callStackUnderflow
    | latest :: others => .ok { target := some latest, frames := some others }
  | .clearCarry => .ok { carry := some false }
  | .setCarry => .ok { carry := some true }
  | .print => .ok { output := some (toString (value r)) }
  | .printChar => .ok { output := some (String.singleton (Char.ofNat (value r))) }
  | .videoStore => .ok { videoCell := some (second, m.register r) }
  | .selectBank =>
    if first.toNat < m.bank.count.toNat then
      .ok { bank := some first }
    else
      .error (.parameterOutOfRange first m.bank.count)
  | .selectPalette =>
    if first.toNat < m.palette.count.toNat then
      .ok { palette := some first }
    else
      .error (.parameterOutOfRange first m.palette.count)

def printed (events : List Event) : List String :=
  events.filterMap fun
    | .printRequested text => some text
    | _ => none

/--
The completion of an instruction on a machine is the effect, or the fault with nothing changed. The
advance is suppressed by targets and by a return without a return address.
-/
def Completion.Meets (done : Completion Unit) (m : Machine) : Except Fault Effect → Prop
  | .ok effect =>
    done.value = .ok () ∧ printed done.events = effect.output.toList ∧
      done.execution =
        { machine := effect.apply m.programCounter m
          nextAddress := m.programCounter + 1
          advanceSuppressed := effect.target.isSome }
  | .error fault =>
    done.value = .error fault ∧ done.events = [] ∧
      done.execution =
        { Execution.start m with advanceSuppressed := fault = .callStackUnderflow }

theorem Machine.pushReturn_eq (m : Machine) (address : UInt8) :
    m.pushReturn address =
      if m.callStack.entries.length < m.callStack.depth then
        .ok { m with callStack := ⟨m.callStack.depth, address :: m.callStack.entries⟩ }
      else
        .error (.callStackOverflow m.callStack.depth) := by
  rw [pushReturn, CallStack.push]
  split <;> rfl

namespace Routine

section Arithmetic

variable (a b : UInt8)

theorem addCarry_eq :
    addCarry a b = (UInt8.ofNat (a.toNat + b.toNat), decide (255 < a.toNat + b.toNat)) := by
  rw [addCarry, UInt8.ofNat_add, UInt8.ofNat_toNat, UInt8.ofNat_toNat]

theorem subCarry_eq :
    subCarry a b = (UInt8.ofNat (256 + a.toNat - b.toNat), decide (a.toNat < b.toNat)) := by
  have ha := a.toNat_lt
  have hb := b.toNat_lt
  have difference : a - b = UInt8.ofNat (256 + a.toNat - b.toNat) := by
    rw [← UInt8.toNat_inj, UInt8.toNat_sub, UInt8.toNat_ofNat']
    omega
  rw [subCarry, difference]
  rfl

theorem mulCarry_eq :
    mulCarry a b = (UInt8.ofNat (a.toNat * b.toNat), decide (255 < a.toNat * b.toNat)) := by
  rw [mulCarry, UInt8.ofNat_mul, UInt8.ofNat_toNat, UInt8.ofNat_toNat]

theorem addCarry_one : addCarry a 1 = (UInt8.ofNat (a.toNat + 1), decide (a.toNat = 255)) := by
  have ha := a.toNat_lt
  rw [addCarry_eq, UInt8.toNat_one]
  congr 1
  rw [decide_eq_decide]
  omega

theorem subCarry_one : subCarry a 1 = (UInt8.ofNat (a.toNat + 255), decide (a.toNat = 0)) := by
  rw [subCarry_eq, UInt8.toNat_one]
  congr 1
  . congr 1
    omega
  . rw [decide_eq_decide]
    omega

theorem shiftLeft_eq :
    (a <<< 1, a &&& 0x80 != 0) = (UInt8.ofNat (2 * a.toNat), decide (128 ≤ a.toNat)) := by
  apply Byte.forall_of_fin _ a
  decide +kernel

theorem shiftRight_eq :
    (a >>> 1, a &&& 0x01 != 0) = (UInt8.ofNat (a.toNat / 2), decide (a.toNat % 2 = 1)) := by
  apply Byte.forall_of_fin _ a
  decide +kernel

theorem complement_eq : ~~~a = UInt8.ofNat (255 - a.toNat) := by
  apply Byte.forall_of_fin _ a
  decide +kernel

end Arithmetic

@[simp]
theorem liftM_ok_bind (value : α) (f : α → Routine β) :
    (liftM (Except.ok value : Except Fault α) >>= f : Routine β) = f value := rfl

@[simp]
theorem run_register_bind (r : Register) (f : UInt8 → Routine β) (x : Execution) :
    (register r >>= f).run x = (f (x.machine.register r)).run x := rfl

section Meets

variable (m : Machine)

theorem meets_pure : ((pure () : Routine Unit).run (.start m)).Meets m (.ok {}) :=
  ⟨rfl, rfl, rfl⟩

theorem meets_setRegister (r : Register) {value : UInt8} {n : Nat} (same : value = UInt8.ofNat n) :
    ((setRegister r value).run (.start m)).Meets m (.ok { register := some (r, n) }) := by
  subst same
  exact ⟨rfl, rfl, rfl⟩

theorem meets_setCarry (value : Bool) :
    ((setCarry value).run (.start m)).Meets m (.ok { carry := some value }) := by
  rw [setCarry, run_attempt, Execution.perform]
  split
  . next same =>
    subst same
    exact ⟨rfl, rfl, rfl⟩
  . exact ⟨rfl, rfl, rfl⟩

theorem meets_setRegister_setCarry (r : Register) {result : UInt8 × Bool} {n : Nat} {carry : Bool}
    (same : result = (UInt8.ofNat n, carry)) :
    ((do setRegister r result.1; setCarry result.2 : Routine Unit).run (.start m)).Meets m
      (.ok { register := some (r, n), carry := some carry }) := by
  subst same
  -- the carry is compared with that of the machine in which the register is set already
  have later := meets_setCarry (m.setRegister r (UInt8.ofNat n)) carry
  rw [run_bind, setRegister, run_attempt]
  exact later

theorem meets_writeMemory (address value : UInt8) :
    ((writeMemory address value).run (.start m)).Meets m (.ok { cell := some (address, value) }) :=
  ⟨rfl, rfl, rfl⟩

theorem meets_writeVideoMemory (address value : UInt8) :
    ((writeVideoMemory address value).run (.start m)).Meets m
      (.ok { videoCell := some (address, value) }) :=
  ⟨rfl, rfl, rfl⟩

theorem meets_print (text : String) :
    ((print text).run (.start m)).Meets m (.ok { output := some text }) :=
  ⟨rfl, rfl, rfl⟩

theorem meets_jumpWhen {condition : Bool} {taken : Prop} [Decidable taken]
    (agrees : condition = true ↔ taken) {index : Nat} {ops : Operands} {target : UInt8}
    (operand : ops.byte index = .ok target) :
    ((jumpWhen condition index ops).run (.start m)).Meets m
      (.ok { target := if taken then some target else none }) := by
  rw [jumpWhen, operand]
  by_cases jumps : taken
  . rw [agrees.2 jumps, if_pos jumps]
    exact ⟨rfl, rfl, rfl⟩
  . rw [Bool.eq_false_iff.2 fun condition => jumps (agrees.1 condition), if_neg jumps]
    exact ⟨rfl, rfl, rfl⟩

theorem meets_call (target : UInt8) :
    ((call target).run (.start m)).Meets m
      (if m.callStack.entries.length < m.callStack.depth then
        .ok
          { target := some target
            frames := some ((m.programCounter + 1) :: m.callStack.entries) }
      else
        .error (.callStackOverflow m.callStack.depth)) := by
  rw [call, run_attempt]
  simp only [Execution.perform, Execution.start, Machine.pushReturn_eq]
  by_cases room : m.callStack.entries.length < m.callStack.depth
  . rw [if_pos room, if_pos room]
    exact ⟨rfl, rfl, rfl⟩
  . rw [if_neg room, if_neg room]
    exact ⟨rfl, rfl, rfl⟩

theorem meets_ret :
    (ret.run (.start m)).Meets m
      (match m.callStack.entries with
      | [] => .error .callStackUnderflow
      | latest :: others => .ok { target := some latest, frames := some others }) := by
  rw [ret, run_attempt]
  simp only [Execution.perform, Execution.start, Machine.popReturn, CallStack.pop]
  cases m.callStack.entries with
  | nil => exact ⟨rfl, rfl, rfl⟩
  | cons latest others => exact ⟨rfl, rfl, rfl⟩

theorem meets_selectBank (value : UInt8) :
    ((selectBank value).run (.start m)).Meets m
      (if value.toNat < m.bank.count.toNat then
        .ok { bank := some value }
      else
        .error (.parameterOutOfRange value m.bank.count)) := by
  rw [selectBank, run_attempt]
  simp only [Execution.perform, Execution.start, Machine.selectBank, Selector.select,
    UInt8.lt_iff_toNat_lt]
  split
  . exact ⟨rfl, rfl, rfl⟩
  . exact ⟨rfl, rfl, rfl⟩

theorem meets_selectPalette (value : UInt8) :
    ((selectPalette value).run (.start m)).Meets m
      (if value.toNat < m.palette.count.toNat then
        .ok { palette := some value }
      else
        .error (.parameterOutOfRange value m.palette.count)) := by
  rw [selectPalette, run_attempt]
  simp only [Execution.perform, Execution.start, Machine.selectPalette, Selector.select,
    UInt8.lt_iff_toNat_lt]
  split
  . exact ⟨rfl, rfl, rfl⟩
  . exact ⟨rfl, rfl, rfl⟩

section Families

variable {rest : List UInt8} {n : Nat} {carry : Bool}

theorem meets_pairWithCarry (p : RegisterPair) {operation : UInt8 → UInt8 → UInt8 × Bool}
    (same : operation (m.register p.destination) (m.register p.source) =
      (UInt8.ofNat n, carry)) :
    ((pairWithCarry operation ⟨p.toByte :: rest⟩).run (.start m)).Meets m
      (.ok { register := some (p.destination, n), carry := some carry }) := by
  rw [pairWithCarry, Operands.registerPair_zero]
  exact meets_setRegister_setCarry m p.destination same

theorem meets_constWithCarry (constant : UInt8) (r : Register)
    {operation : UInt8 → UInt8 → UInt8 × Bool}
    (same : operation (m.register r) constant = (UInt8.ofNat n, carry)) :
    ((constWithCarry operation ⟨constant :: r.toByte :: rest⟩).run (.start m)).Meets m
      (.ok { register := some (r, n), carry := some carry }) := by
  rw [constWithCarry, Operands.byte_zero, Operands.register_one]
  exact meets_setRegister_setCarry m r same

theorem meets_pair (p : RegisterPair) {operation : UInt8 → UInt8 → UInt8}
    (same : operation (m.register p.destination) (m.register p.source) = UInt8.ofNat n) :
    ((pair operation ⟨p.toByte :: rest⟩).run (.start m)).Meets m
      (.ok { register := some (p.destination, n) }) := by
  rw [pair, Operands.registerPair_zero]
  exact meets_setRegister m p.destination same

theorem meets_pairNonzero (p : RegisterPair) {operation : UInt8 → UInt8 → UInt8}
    (same : operation (m.register p.destination) (m.register p.source) = UInt8.ofNat n) :
    ((pairNonzero operation ⟨p.toByte :: rest⟩).run (.start m)).Meets m
      (if (m.register p.source).toNat = 0 then
        .error .divideByZero
      else
        .ok { register := some (p.destination, n) }) := by
  have zero : m.register p.source = 0 ↔ (m.register p.source).toNat = 0 := UInt8.toNat_inj.symm
  rw [pairNonzero, Operands.registerPair_zero]
  simp only [liftM_ok_bind, run_register_bind, Execution.start, zero]
  split
  . exact ⟨rfl, rfl, rfl⟩
  . exact meets_setRegister m p.destination same

theorem meets_unaryWithCarry (r : Register) {operation : UInt8 → UInt8 × Bool}
    (same : operation (m.register r) = (UInt8.ofNat n, carry)) :
    ((unaryWithCarry operation ⟨r.toByte :: rest⟩).run (.start m)).Meets m
      (.ok { register := some (r, n), carry := some carry }) := by
  rw [unaryWithCarry, Operands.register_zero]
  exact meets_setRegister_setCarry m r same

theorem meets_unary (r : Register) {operation : UInt8 → UInt8}
    (same : operation (m.register r) = UInt8.ofNat n) :
    ((unary operation ⟨r.toByte :: rest⟩).run (.start m)).Meets m
      (.ok { register := some (r, n) }) := by
  rw [unary, Operands.register_zero]
  exact meets_setRegister m r same

end Families

end Meets

end Routine

namespace Opcode

theorem meets_row {op : Opcode} {bytes : List UInt8}
    (legal : OperandKind.Accept op.operands bytes) (m : Machine) :
    ((op.execute ⟨bytes⟩).run (.start m)).Meets m (op.row bytes (m.programCounter + 1) m) := by
  -- the legal operand bytes have one shape for each list of kinds
  cases op <;>
    simp only [operands, OperandKind.accept_nil_iff, OperandKind.accept_constant_cons_iff,
      OperandKind.accept_memoryAddress_cons_iff, OperandKind.accept_register_cons_iff,
      OperandKind.accept_registerPair_cons_iff] at legal <;>
    rw [execute]
  case nop => exact Routine.meets_pure m
  case clearCarry | setCarry => exact Routine.meets_setCarry m _
  case ret => exact Routine.meets_ret m
  case add | sub | mul =>
    obtain ⟨p, _, rfl, rfl⟩ := legal
    simp only [row, List.getD_cons_zero, RegisterPair.numbered_source,
      RegisterPair.numbered_destination]
    apply Routine.meets_pairWithCarry m p
    simp only [Routine.addCarry_eq, Routine.subCarry_eq, Routine.mulCarry_eq]
  case and | or | xor =>
    obtain ⟨p, _, rfl, rfl⟩ := legal
    simp only [row, List.getD_cons_zero, RegisterPair.numbered_source,
      RegisterPair.numbered_destination]
    apply Routine.meets_pair m p
    simp only [← UInt8.toNat_and, ← UInt8.toNat_or, ← UInt8.toNat_xor, UInt8.ofNat_toNat]
  case div | mod =>
    obtain ⟨p, _, rfl, rfl⟩ := legal
    simp only [row, List.getD_cons_zero, RegisterPair.numbered_source,
      RegisterPair.numbered_destination]
    apply Routine.meets_pairNonzero m p
    simp only [← UInt8.toNat_div, ← UInt8.toNat_mod, UInt8.ofNat_toNat]
  case movRegReg =>
    obtain ⟨p, _, rfl, rfl⟩ := legal
    simp only [row, List.getD_cons_zero, RegisterPair.numbered_source,
      RegisterPair.numbered_destination, Operands.registerPair_zero]
    apply Routine.meets_setRegister m p.destination
    exact UInt8.ofNat_toNat.symm
  case addConst | subConst =>
    obtain ⟨value, _, ⟨r, _, rfl, rfl⟩, rfl⟩ := legal
    simp only [row, List.getD_cons_zero, List.getD_cons_succ, Register.numbered_toByte]
    apply Routine.meets_constWithCarry m value r
    simp only [Routine.addCarry_eq, Routine.subCarry_eq]
  case inc | dec | shl | shr =>
    obtain ⟨r, _, rfl, rfl⟩ := legal
    simp only [row, List.getD_cons_zero, Register.numbered_toByte]
    apply Routine.meets_unaryWithCarry m r
    simp only [Routine.addCarry_one, Routine.subCarry_one, Routine.shiftLeft_eq,
      Routine.shiftRight_eq]
  case not =>
    obtain ⟨r, _, rfl, rfl⟩ := legal
    simp only [row, List.getD_cons_zero, Register.numbered_toByte]
    apply Routine.meets_unary m r
    exact Routine.complement_eq _
  case movConstReg | movMemReg =>
    obtain ⟨value, _, ⟨r, _, rfl, rfl⟩, rfl⟩ := legal
    simp only [row, List.getD_cons_zero, List.getD_cons_succ, Register.numbered_toByte,
      Operands.byte_zero, Operands.register_one]
    apply Routine.meets_setRegister m r
    exact UInt8.ofNat_toNat.symm
  case loadIndirect =>
    obtain ⟨r, _, ⟨s, _, rfl, rfl⟩, rfl⟩ := legal
    simp only [row, List.getD_cons_zero, List.getD_cons_succ, Register.numbered_toByte,
      Operands.register_zero, Operands.register_one]
    apply Routine.meets_setRegister m s
    exact UInt8.ofNat_toNat.symm
  case storeIndirect =>
    obtain ⟨r, _, ⟨s, _, rfl, rfl⟩, rfl⟩ := legal
    simp only [row, List.getD_cons_zero, List.getD_cons_succ, Register.numbered_toByte,
      Operands.register_zero, Operands.register_one]
    exact Routine.meets_writeMemory m _ _
  case movRegMem | videoStore =>
    obtain ⟨r, _, ⟨address, _, rfl, rfl⟩, rfl⟩ := legal
    simp only [row, List.getD_cons_zero, List.getD_cons_succ, Register.numbered_toByte,
      Operands.register_zero, Operands.byte_one]
    first
    | exact Routine.meets_writeMemory m _ _
    | exact Routine.meets_writeVideoMemory m _ _
  case movConstMem =>
    obtain ⟨value, _, ⟨address, _, rfl, rfl⟩, rfl⟩ := legal
    exact Routine.meets_writeMemory m address value
  case jmp =>
    obtain ⟨target, _, rfl, rfl⟩ := legal
    exact Routine.meets_jumpWhen m (iff_of_true rfl trivial) rfl
  case jmpCarry =>
    obtain ⟨target, _, rfl, rfl⟩ := legal
    exact Routine.meets_jumpWhen m Iff.rfl rfl
  case jmpNoCarry =>
    obtain ⟨target, _, rfl, rfl⟩ := legal
    apply Routine.meets_jumpWhen m _ rfl
    rw [Bool.not_eq_true']
    rfl
  case jmpZero =>
    obtain ⟨r, _, ⟨target, _, rfl, rfl⟩, rfl⟩ := legal
    simp only [row, List.getD_cons_zero, List.getD_cons_succ, Register.numbered_toByte,
      Operands.register_zero]
    apply Routine.meets_jumpWhen m _ rfl
    rw [beq_iff_eq]
    exact UInt8.toNat_inj.symm
  case jmpNotZero =>
    obtain ⟨r, _, ⟨target, _, rfl, rfl⟩, rfl⟩ := legal
    simp only [row, List.getD_cons_zero, List.getD_cons_succ, Register.numbered_toByte,
      Operands.register_zero]
    apply Routine.meets_jumpWhen m _ rfl
    rw [bne_iff_ne]
    exact not_congr UInt8.toNat_inj.symm
  case call =>
    obtain ⟨target, _, rfl, rfl⟩ := legal
    exact Routine.meets_call m target
  case print | printChar =>
    obtain ⟨r, _, rfl, rfl⟩ := legal
    simp only [row, List.getD_cons_zero, Register.numbered_toByte, Operands.register_zero]
    exact Routine.meets_print m _
  case selectBank =>
    obtain ⟨value, _, rfl, rfl⟩ := legal
    exact Routine.meets_selectBank m value
  case selectPalette =>
    obtain ⟨value, _, rfl, rfl⟩ := legal
    exact Routine.meets_selectPalette m value

end Opcode
end ByteMachine
