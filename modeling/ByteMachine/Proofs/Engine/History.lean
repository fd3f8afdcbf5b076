import ByteMachine.Engine.Operation
import ByteMachine.Proofs.Engine.Cycle

/-!
This module contains the histories of an engine: operations performed one after another, the
engines they reach, and what is true of the pending instruction in all of them.
-/

namespace ByteMachine
namespace Engine

def performAll : List Operation → Engine → Reaction (List Answer)
  | [], e => { result := [], engine := e }
  | operation :: rest, e =>
    let first := e.perform operation
    (first.andThen (performAll rest)).map (first.result :: ·)

def Reachable (e : Engine) : Prop :=
  ∃ config set operations, e = ((withInstructions config set).performAll operations).engine

theorem engine_performAll_cons (operation : Operation) (rest : List Operation) (e : Engine) :
    (e.performAll (operation :: rest)).engine =
      ((e.perform operation).engine.performAll rest).engine := rfl

theorem events_performAll_cons (operation : Operation) (rest : List Operation) (e : Engine) :
    (e.performAll (operation :: rest)).events =
      (e.perform operation).events ++ ((e.perform operation).engine.performAll rest).events := rfl

/--
A relation between the engine before, the events published and the engine after, which holds of
each cycle and of each edit by the host and goes on from one to the next.
-/
structure Lawful (R : Engine → List Event → Engine → Prop) : Prop where
  refl : ∀ e, R e [] e
  trans : ∀ {a b c first second}, R a first b → R b second c → R a (first ++ second) c
  cycle : ∀ e, R e e.cycle.events e.cycle.engine
  load : ∀ e program, R e (e.load program).events (e.load program).engine
  reset : ∀ e, R e e.reset.events e.reset.engine
  setRegister : ∀ e r value, R e (e.setRegister r value).events (e.setRegister r value).engine
  setMemory : ∀ e address value,
    R e (e.setMemory address value).events (e.setMemory address value).engine
  setVideoMemory : ∀ e address value,
    R e (e.setVideoMemory address value).events (e.setVideoMemory address value).engine
  setProgramCounter : ∀ e value,
    R e (e.setProgramCounter value).events (e.setProgramCounter value).engine

namespace Lawful

variable {R : Engine → List Event → Engine → Prop} (lawful : Lawful R)
include lawful

theorem finish (n : Nat) (e : Engine) (r : Reaction Outcome) (h : R e r.events r.engine) :
    R e (Engine.finish n r).events (Engine.finish n r).engine := by
  induction n generalizing r with
  | zero => exact h
  | succ n ih =>
    rw [Engine.finish]
    split
    . exact h
    . apply ih
      exact lawful.trans h (lawful.cycle r.engine)

theorem step (e : Engine) : R e e.step.events e.step.engine := by
  apply lawful.finish
  apply lawful.cycle

theorem run (n : Nat) (e : Engine) : R e (e.run n).events (e.run n).engine := by
  induction n generalizing e with
  | zero => exact lawful.refl e
  | succ n ih =>
    rw [run_succ]
    exact lawful.trans (lawful.cycle e) (ih e.cycle.engine)

theorem writeCells (cells : List (UInt8 × UInt8)) (e : Engine) (r : Reaction Unit)
    (h : R e r.events r.engine) :
    let written := cells.foldl (fun r (a, v) => r.andThen (Engine.setVideoMemory a v)) r
    R e written.events written.engine := by
  induction cells generalizing r with
  | nil => exact h
  | cons cell cells ih =>
    apply ih
    exact lawful.trans h (lawful.setVideoMemory r.engine cell.1 cell.2)

theorem loadImage (image : Image) (e : Engine) :
    R e (e.loadImage image).events (e.loadImage image).engine := by
  apply lawful.writeCells
  exact lawful.load e image.memory.toList

theorem perform (operation : Operation) (e : Engine) :
    R e (e.perform operation).events (e.perform operation).engine := by
  cases operation with
  | cycle => exact lawful.cycle e
  | step => exact lawful.step e
  | run cycles => exact lawful.run cycles e
  | load program => exact lawful.load e program
  | loadImage image => exact lawful.loadImage image e
  | reset => exact lawful.reset e
  | setRegister r value => exact lawful.setRegister e r value
  | setMemory address value => exact lawful.setMemory e address value
  | setVideoMemory address value => exact lawful.setVideoMemory e address value
  | setProgramCounter value => exact lawful.setProgramCounter e value

theorem performAll (operations : List Operation) (e : Engine) :
    R e (e.performAll operations).events (e.performAll operations).engine := by
  induction operations generalizing e with
  | nil => exact lawful.refl e
  | cons operation rest ih =>
    rw [events_performAll_cons, engine_performAll_cons]
    exact lawful.trans (lawful.perform operation e) (ih (e.perform operation).engine)

end Lawful

theorem lawful_sameSetup : Lawful fun e _ f => SameSetup e f where
  refl := SameSetup.refl
  trans first second := first.trans second
  cycle := sameSetup_cycle
  load := sameSetup_load
  reset _ := ⟨rfl, rfl⟩
  setRegister _ _ _ := ⟨rfl, rfl⟩
  setMemory _ _ _ := ⟨rfl, rfl⟩
  setVideoMemory _ _ _ := ⟨rfl, rfl⟩
  setProgramCounter _ _ := ⟨rfl, rfl⟩

theorem setup_of_history (config : Config) (set : InstructionSet) (operations : List Operation) :
    let e := ((withInstructions config set).performAll operations).engine
    e.instructions = set ∧ e.config = config := by
  have kept := lawful_sameSetup.performAll operations (withInstructions config set)
  exact ⟨kept.instructions, kept.config⟩

structure Placed (e : Engine) (p : Pending) : Prop where
  lookup_opcode : e.instructions.lookup p.opcode = some p.instruction
  length_collected : p.collected.length ≤ p.required
  position_add : p.position + UInt8.ofNat p.collected.length = e.machine.programCounter

/--
Between two operations a pending instruction is the one its opcode stands for, it still lacks
operand bytes, and the program counter is behind its last byte.
-/
structure Coherent (e : Engine) (p : Pending) : Prop where
  lookup_opcode : e.instructions.lookup p.opcode = some p.instruction
  length_collected : p.collected.length < p.required
  position_add : p.position + 1 + UInt8.ofNat p.collected.length = e.machine.programCounter

def Decoding (e : Engine) : Prop :=
  ∀ p, e.pending = some p → e.Coherent p

theorem decoding_of_idle {e : Engine} (idle : e.pending = none) : e.Decoding := by
  intro p collecting
  rw [idle] at collecting
  contradiction

theorem Decoding.placed {e : Engine} (h : e.Decoding) {p : Pending} {event : Event}
    {waiting : Outcome} (consumes : e.Consumes p event waiting) : e.Placed p := by
  cases consumes with
  | opcode idle bound => exact ⟨bound, Nat.zero_le _, by simp [opened]⟩
  | @operand p kind collecting next =>
    have coherent := h p collecting
    have length : (p.collect e.nextByte).collected.length = p.collected.length + 1 := by
      simp [Pending.collect]
    refine ⟨coherent.lookup_opcode, ?_, ?_⟩
    . rw [length]
      exact coherent.length_collected
    . rw [length, add_ofNat_succ]
      exact coherent.position_add

theorem Placed.coherent_await {e : Engine} {p : Pending} (h : e.Placed p)
    (short : p.isReady = false) : (e.await p).Coherent p := by
  refine ⟨h.lookup_opcode, p.isReady_eq_false_iff.1 short, ?_⟩
  rw [programCounter_await, ← h.position_add, UInt8.add_assoc, UInt8.add_comm 1, UInt8.add_assoc]

theorem Placed.length_eq {e : Engine} {p : Pending} (h : e.Placed p) (ready : p.isReady) :
    p.collected.length = p.required :=
  Nat.le_antisymm h.length_collected (p.isReady_iff.1 ready)

theorem Decoding.not_ready {e : Engine} (h : e.Decoding) {p : Pending}
    (collecting : e.pending = some p) : p.isReady = false :=
  p.isReady_eq_false_iff.2 (h p collecting).length_collected

theorem Decoding.cycle {e : Engine} (h : e.Decoding) : e.cycle.engine.Decoding := by
  rcases e.cycle_cases with ⟨idle, unbound⟩ | ⟨p, event, waiting, consumes⟩ | ⟨p, -, -, cycle⟩
  . apply decoding_of_idle
    rw [cycle_of_unbound idle unbound]
    exact idle
  . rw [cycle_of_consumes consumes]
    cases ready : p.isReady with
    | true =>
      rw [e.proceed_of_ready ready]
      exact decoding_of_idle (e.pending_execute p)
    | false =>
      rw [e.proceed_of_not_ready ready]
      intro q collecting
      cases collecting
      exact (h.placed consumes).coherent_await ready
  . rw [cycle]
    exact decoding_of_idle (e.pending_execute p)

theorem lawful_decoding : Lawful fun e _ e' => e.Decoding → e'.Decoding where
  refl _ h := h
  trans first second h := second (first h)
  cycle _ h := h.cycle
  load _ _ _ := decoding_of_idle rfl
  reset _ _ := decoding_of_idle rfl
  setRegister _ _ _ h p collecting := ⟨(h p collecting).1, (h p collecting).2, (h p collecting).3⟩
  setMemory _ _ _ h p collecting := ⟨(h p collecting).1, (h p collecting).2, (h p collecting).3⟩
  setVideoMemory _ _ _ h p collecting :=
    ⟨(h p collecting).1, (h p collecting).2, (h p collecting).3⟩
  setProgramCounter _ _ _ := decoding_of_idle rfl

theorem Reachable.decoding {e : Engine} (h : e.Reachable) : e.Decoding := by
  obtain ⟨config, set, operations, rfl⟩ := h
  apply lawful_decoding.performAll operations
  exact decoding_of_idle rfl

end Engine
end ByteMachine
