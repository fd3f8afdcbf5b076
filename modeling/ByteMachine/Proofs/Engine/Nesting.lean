import ByteMachine.Proofs.Engine.Decoding
import ByteMachine.Proofs.Engine.Row

/-!
This module contains the nesting of calls and returns: what a call finds on the call stack, and the
return address it pushes, stay there until the return that goes with it.
-/

namespace ByteMachine

theorem Opcode.frames_of_row {op : Opcode} {operands : List UInt8} {next : UInt8} {m : Machine}
    {effect : Effect} (row : op.row operands next m = .ok effect) :
    op ≠ .ret ∧ effect.frames = none ∨
      op ≠ .ret ∧ effect.frames = some (next :: m.callStack.entries) ∨
      op = .ret ∧ ∃ latest others, m.callStack.entries = latest :: others ∧
        effect.frames = some others ∧ effect.target = some latest := by
  cases op
  case call =>
    unfold Opcode.row at row
    dsimp only at row
    split at row <;> cases row
    exact .inr (.inl ⟨by decide, rfl⟩)
  case ret =>
    unfold Opcode.row at row
    dsimp only at row
    split at row
    . cases row
    . next latest others entries =>
      cases row
      exact .inr (.inr ⟨rfl, latest, others, entries, rfl, rfl⟩)
  case div | mod | selectBank | selectPalette =>
    unfold Opcode.row at row
    dsimp only at row
    split at row <;> cases row
    exact .inl ⟨by decide, rfl⟩
  all_goals
    cases row
    exact .inl ⟨by decide, rfl⟩

theorem Pending.meets_execute {p : Pending} {op : Opcode}
    (instruction : p.instruction = op.instruction) (length : p.collected.length = p.required)
    (m : Machine) :
    (∃ fault, (p.execute m).Meets m (.error fault)) ∨
      (p.execute m).Meets m (op.row p.collected (m.programCounter + 1) m) := by
  rcases execute_cases length m with ⟨byte, kind, refused⟩ | ⟨legal, run⟩
  . rw [refused]
    exact .inl ⟨_, rfl, rfl, rfl⟩
  . rw [instruction] at legal run
    rw [run]
    exact .inr (op.meets_row legal m)

/--
The operations of a session that goes on: cycles, and edits that leave the call stack alone.
-/
def Operation.isLive : Operation → Bool
  | .cycle | .setRegister .. | .setMemory .. | .setVideoMemory .. | .setProgramCounter _ => true
  | _ => false

namespace Engine

def frames (e : Engine) : List UInt8 :=
  e.machine.callStack.frames

inductive Stacks (e : Engine) (r : Reaction Outcome) : Prop where
  | kept (other : r.result ≠ .executed Opcode.ret.byte) (same : r.engine.frames = e.frames)
  | pushed (other : r.result ≠ .executed Opcode.ret.byte) (address : UInt8)
    (more : r.engine.frames = e.frames ++ [address])
  | popped (returned : r.result = .executed Opcode.ret.byte)
    (fewer : e.frames = r.engine.frames ++ [r.engine.machine.programCounter])

theorem Stacks.after {e : Engine} {r : Reaction Outcome} (h : e.Stacks r) (events : List Event) :
    e.Stacks (r.after events) := by
  cases h with
  | kept other same => exact .kept other same
  | pushed other address more => exact .pushed other address more
  | popped returned fewer => exact .popped returned fewer

theorem execute_of_meets_ok {e : Engine} {p : Pending} {effect : Effect}
    (meets : (p.execute e.machine).Meets e.machine (.ok effect)) :
    (e.execute p).result = .executed p.opcode ∧
      (e.execute p).engine.machine = effect.apply (e.machine.programCounter + 1) e.machine := by
  obtain ⟨value, -, execution⟩ := meets
  refine ⟨by rw [result_execute, value]; rfl, ?_⟩
  cases target : effect.target <;>
    simp [execute, execution, target, advance, Machine.advance, Effect.apply]

theorem execute_of_meets_error {e : Engine} {p : Pending} {fault : Fault}
    (meets : (p.execute e.machine).Meets e.machine (.error fault)) :
    (e.execute p).result = .faulted p.opcode fault ∧ (e.execute p).engine.frames = e.frames := by
  obtain ⟨value, -, execution⟩ := meets
  refine ⟨by rw [result_execute, value]; rfl, ?_⟩
  simp only [execute, execution]
  split <;> rfl

theorem stacks_execute {e : Engine} {p : Pending} {op : Opcode} (opcode : p.opcode = op.byte)
    (instruction : p.instruction = op.instruction) (length : p.collected.length = p.required) :
    e.Stacks (e.execute p) := by
  have refused : ∀ fault, (p.execute e.machine).Meets e.machine (.error fault) →
      e.Stacks (e.execute p) := by
    intro fault meets
    obtain ⟨result, same⟩ := execute_of_meets_error meets
    exact .kept (by rw [result]; simp) same
  rcases p.meets_execute instruction length e.machine with ⟨fault, meets⟩ | meets
  . exact refused fault meets
  cases row : op.row p.collected (e.machine.programCounter + 1) e.machine with
  | error fault => exact refused fault (row ▸ meets)
  | ok effect =>
    rw [row] at meets
    obtain ⟨result, machine⟩ := execute_of_meets_ok meets
    have other : op ≠ .ret → (e.execute p).result ≠ .executed Opcode.ret.byte := by
      intro other same
      rw [result, opcode] at same
      exact other (Opcode.byte_injective (Outcome.executed.inj same))
    -- the table tells which of the instructions touch the stack, and how
    rcases Opcode.frames_of_row row with ⟨ne, none⟩ | ⟨ne, some⟩ |
      ⟨rfl, latest, others, entries, some, target⟩
    . refine .kept (other ne) ?_
      rw [frames, machine, Effect.apply, none]
      rfl
    . refine .pushed (other ne) (e.machine.programCounter + 1) ?_
      rw [frames, machine, Effect.apply, some]
      exact List.reverse_cons
    . refine .popped (by rw [result, opcode]) ?_
      rw [frames, frames, machine, Effect.apply, some, target, CallStack.frames, entries]
      exact List.reverse_cons

theorem stacks_cycle {e : Engine} (standard : e.instructions = .standard)
    (decoding : e.Decoding) : e.Stacks e.cycle := by
  rcases e.cycle_cases with ⟨idle, unbound⟩ | ⟨p, event, waiting, consumes⟩ | ⟨p, pending, ready, -⟩
  . rw [cycle_of_unbound idle unbound]
    exact .kept (by simp [skip]) rfl
  . have placed := decoding.placed consumes
    obtain ⟨op, opcode, instruction⟩ := instruction_of_standard standard placed.lookup_opcode
    rw [cycle_of_consumes consumes]
    apply Stacks.after
    cases ready : p.isReady with
    | true =>
      rw [e.proceed_of_ready ready]
      exact stacks_execute opcode instruction (placed.length_eq ready)
    | false =>
      rw [e.proceed_of_not_ready ready]
      refine .kept ?_ rfl
      rintro rfl
      cases consumes.not_completes
  . rw [decoding.not_ready pending] at ready
    contradiction

def Returns (e : Engine) (height : Nat) : Prop :=
  e.cycle.result = .executed Opcode.ret.byte ∧ e.frames.length = height

def NeverReturns (height : Nat) : Engine → List Operation → Prop
  | _, [] => True
  | e, operation :: rest =>
    (operation = .cycle → ¬e.Returns height) ∧
      NeverReturns height (e.perform operation).engine rest

instance (e : Engine) (height : Nat) : Decidable (e.Returns height) :=
  inferInstanceAs (Decidable (_ ∧ _))

instance decidableNeverReturns (height : Nat) :
    (e : Engine) → (operations : List Operation) → Decidable (e.NeverReturns height operations)
  | _, [] => .isTrue trivial
  | e, operation :: rest =>
    have := decidableNeverReturns height (e.perform operation).engine rest
    inferInstanceAs (Decidable ((operation = .cycle → ¬e.Returns height) ∧ _))

theorem prefix_cycle {e : Engine} (standard : e.instructions = .standard) (decoding : e.Decoding)
    {kept : List UInt8} (holds : kept <+: e.frames) (stays : ¬e.Returns kept.length) :
    kept <+: e.cycle.engine.frames := by
  cases stacks_cycle standard decoding with
  | kept other same => rwa [same]
  | pushed other address more =>
    rw [more]
    exact holds.trans (List.prefix_append _ _)
  | popped returned fewer =>
    -- the return found more than what is kept, so the address it takes away is above
    have height : e.frames.length ≠ kept.length := fun same => stays ⟨returned, same⟩
    have length := holds.length_le
    rw [fewer] at holds height length
    rw [List.length_append, List.length_singleton] at height length
    exact List.prefix_of_prefix_length_le holds (List.prefix_append _ _) (by omega)

theorem prefix_performAll {e : Engine} (standard : e.instructions = .standard)
    (decoding : e.Decoding) {kept : List UInt8} (holds : kept <+: e.frames)
    {operations : List Operation} (live : ∀ operation ∈ operations, operation.isLive)
    (stays : e.NeverReturns kept.length operations) :
    kept <+: (e.performAll operations).engine.frames := by
  induction operations generalizing e with
  | nil => exact holds
  | cons operation rest ih =>
    have next : kept <+: (e.perform operation).engine.frames := by
      have alive := live operation List.mem_cons_self
      cases operation with
      | cycle => exact prefix_cycle standard decoding holds (stays.1 rfl)
      | setRegister | setMemory | setVideoMemory | setProgramCounter => exact holds
      | _ => contradiction
    have setup := lawful_sameSetup.perform operation e
    rw [engine_performAll_cons]
    apply ih (setup.instructions.trans standard) (lawful_decoding.perform operation e decoding) next
    . intro operation mem
      exact live operation (List.mem_cons_of_mem _ mem)
    . exact stays.2

theorem cycle_of_returns {e : Engine} (standard : e.instructions = .standard)
    (decoding : e.Decoding) {outer : List UInt8} {back : UInt8}
    (holds : outer ++ [back] <+: e.frames) (returns : e.Returns (outer.length + 1)) :
    e.cycle.engine.machine.programCounter = back ∧ e.cycle.engine.frames = outer := by
  have all : outer ++ [back] = e.frames := by
    apply holds.eq_of_length
    rw [returns.2, List.length_append, List.length_singleton]
  cases stacks_cycle standard decoding with
  | kept other | pushed other => exact absurd returns.1 other
  | popped returned fewer =>
    rw [fewer] at all
    obtain ⟨frames, place⟩ := List.append_inj' all rfl
    exact ⟨(List.singleton_inj.1 place).symm, frames.symm⟩

theorem step_of_call {e : Engine} (idle : e.pending = none)
    (standard : e.instructions = .standard) (call : e.nextByte = Opcode.call.byte)
    (room : e.frames.length < e.machine.callStack.depth) :
    e.step.result = .executed Opcode.call.byte ∧ e.step.engine.pending = none ∧
      e.step.engine.instructions = .standard ∧
      e.step.engine.frames = e.frames ++ [e.machine.programCounter + 2] := by
  have bound : e.instructions.lookup e.nextByte = some Opcode.call.instruction := by
    rw [standard, call, InstructionSet.lookup_standard_byte]
  let target := e.machine.memory.get (e.machine.programCounter + 1)
  let back := e.machine.programCounter + 2
  have legal : OperandKind.Accept Opcode.call.operands [target] := .cons rfl .nil
  have behind : e.machine.programCounter + UInt8.ofNat Opcode.call.operands.length + 1 = back := by
    rw [UInt8.add_assoc]
    rfl
  have meets : e.StepMeets e.nextByte _ (Opcode.call.row [target] _ e.machine) :=
    step_meets_row idle bound rfl legal
  have entries : e.machine.callStack.entries.length < e.machine.callStack.depth := by
    rw [frames, CallStack.frames, List.length_reverse] at room
    exact room
  have row : Opcode.call.row [target] back e.machine =
      .ok { target := some target, frames := some (back :: e.machine.callStack.entries) } :=
    if_pos entries
  rw [behind, row, call] at meets
  obtain ⟨result, -, engine⟩ := meets
  refine ⟨result, by rw [engine, idle], by rw [engine, standard], ?_⟩
  rw [engine]
  exact List.reverse_cons

theorem returns_match_calls {e : Engine} (idle : e.pending = none)
    (standard : e.instructions = .standard) (call : e.nextByte = Opcode.call.byte)
    (room : e.frames.length < e.machine.callStack.depth) :
    let back := e.machine.programCounter + 2
    let called := e.step.engine
    e.step.result = .executed Opcode.call.byte ∧ called.frames = e.frames ++ [back] ∧
    ∀ operations, (∀ operation ∈ operations, operation.isLive) →
      called.NeverReturns (e.frames.length + 1) operations →
      let reached := (called.performAll operations).engine
      e.frames ++ [back] <+: reached.frames ∧
        (reached.Returns (e.frames.length + 1) →
          reached.cycle.engine.machine.programCounter = back ∧
            reached.cycle.engine.frames = e.frames) := by
  intro back called
  obtain ⟨result, ended, setup, pushed⟩ := step_of_call idle standard call room
  refine ⟨result, pushed, ?_⟩
  intro operations live stays reached
  have decoding : called.Decoding := decoding_of_idle ended
  have bottom : e.frames ++ [back] <+: called.frames :=
    ⟨[], by rw [pushed, List.append_nil]⟩
  have holds : e.frames ++ [back] <+: reached.frames := by
    apply prefix_performAll setup decoding bottom live
    rw [List.length_append, List.length_singleton]
    exact stays
  have kept := lawful_sameSetup.performAll operations called
  exact ⟨holds, cycle_of_returns (kept.instructions.trans setup)
    (lawful_decoding.performAll operations called decoding) holds⟩

def deepening : Engine :=
  ((new { callStackDepth := 3 }).performAll
    [.setMemory 0x40 0x25, .setMemory 0x41 255, .setMemory 255 0x25, .setMemory 0 0x10,
      .setMemory 0x10 0x25, .setMemory 0x11 0x20, .setMemory 0x12 0x26, .setMemory 0x20 0x25,
      .setMemory 0x22 0x26, .setProgramCounter 0x40, .step]).engine

def descent : List Operation :=
  [.cycle, .cycle, .setMemory 0x23 7, .cycle, .cycle, .cycle]

theorem returns_match_calls_of_deepening :
    deepening.frames = [0x42] ∧ deepening.step.engine.frames = [0x42, 1] ∧
      (deepening.step.engine.performAll descent).result[4]? =
        some (.outcome (.faulted 0x25 (.callStackOverflow 3))) ∧
      [0x42, 1] <+: (deepening.step.engine.performAll descent).engine.frames ∧
      (deepening.step.engine.performAll descent).engine.cycle.engine.machine.programCounter = 1 ∧
      (deepening.step.engine.performAll descent).engine.cycle.engine.frames = [0x42] := by
  have idle : deepening.pending = none := Option.isNone_iff_eq_none.1 (by decide +kernel)
  have standard : deepening.instructions = .standard :=
    (lawful_sameSetup.performAll _ _).instructions
  have call : deepening.nextByte = Opcode.call.byte := by decide +kernel
  have room : deepening.frames.length < deepening.machine.callStack.depth := by decide +kernel
  have outer : deepening.frames = [0x42] := by decide +kernel
  have back : deepening.machine.programCounter + 2 = 1 := by decide +kernel
  have stays : deepening.step.engine.NeverReturns 2 descent := by decide +kernel
  have returns : (deepening.step.engine.performAll descent).engine.Returns 2 := by decide +kernel
  obtain ⟨-, pushed, kept⟩ := returns_match_calls idle standard call room
  rw [outer, back] at pushed kept
  obtain ⟨bottom, resumes⟩ := kept descent (by decide) stays
  exact ⟨outer, pushed, by decide +kernel, bottom, resumes returns⟩

end Engine
end ByteMachine
