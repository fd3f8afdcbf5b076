import ByteMachine.Proofs.Engine.Snapshot
import ByteMachine.Proofs.Engine.Step

/-!
This module contains what it takes for two engines to go through the same operations side by side:
if every cycle and every edit by the host comes to the same in related engines, everything does.
-/

namespace ByteMachine

structure Reaction.Agree (R : Engine → Engine → Prop) (r s : Reaction α) : Prop where
  result : r.result = s.result
  events : r.events = s.events
  engine : R r.engine s.engine

namespace Reaction.Agree

variable {R : Engine → Engine → Prop}

theorem andThen {r s : Reaction α} {next next' : Engine → Reaction β} (first : r.Agree R s)
    (rest : (next r.engine).Agree R (next' s.engine)) :
    (r.andThen next).Agree R (s.andThen next') := by
  refine ⟨rest.result, ?_, rest.engine⟩
  simp only [Reaction.andThen, first.events, rest.events]

theorem after {r s : Reaction α} (h : r.Agree R s) (events : List Event) :
    (r.after events).Agree R (s.after events) :=
  ⟨h.result, congrArg (events ++ ·) h.events, h.engine⟩

theorem map {r s : Reaction α} (h : r.Agree R s) (f : α → β) : (r.map f).Agree R (s.map f) :=
  ⟨congrArg f h.result, h.events, h.engine⟩

end Reaction.Agree

namespace Engine

def Sight.through (view : Snapshot → Snapshot) (sight : Sight) : Sight :=
  { sight with snapshot := view sight.snapshot }

/--
A relation of engines in which each edit by the host comes to the same, and which holds again
afterwards.
-/
structure Coupled (R : Engine → Engine → Prop) : Prop where
  load : ∀ {e f}, R e f → ∀ program, (e.load program).Agree R (f.load program)
  reset : ∀ {e f}, R e f → e.reset.Agree R f.reset
  setRegister : ∀ {e f}, R e f → ∀ r value,
    (e.setRegister r value).Agree R (f.setRegister r value)
  setMemory : ∀ {e f}, R e f → ∀ address value,
    (e.setMemory address value).Agree R (f.setMemory address value)
  setVideoMemory : ∀ {e f}, R e f → ∀ address value,
    (e.setVideoMemory address value).Agree R (f.setVideoMemory address value)
  setProgramCounter : ∀ {e f}, R e f → ∀ value,
    (e.setProgramCounter value).Agree R (f.setProgramCounter value)

structure Tandem (R : Engine → Engine → Prop) : Prop extends Coupled R where
  cycle : ∀ {e f}, R e f → e.cycle.Agree R f.cycle

/--
In addition each cycle comes to the same in which the first engine publishes calm events only.
-/
structure TandemWhile (Calm : Event → Prop) (R : Engine → Engine → Prop) : Prop
    extends Coupled R where
  cycle : ∀ {e f}, R e f → (∀ event ∈ e.cycle.events, Calm event) → e.cycle.Agree R f.cycle

theorem agree_cycle_of_machine {R : Engine → Engine → Prop} {e : Engine} {m : Machine}
    (decoding : e.Decoding) (memory : m.memory = e.machine.memory)
    (programCounter : m.programCounter = e.machine.programCounter)
    (advance : ∀ pending,
      R { e with machine := e.machine.advance, pending } { e with machine := m.advance, pending })
    (execute : ∀ p event, e.Placed p → p.isReady → e.cycle = (e.execute p).after [event] →
      (e.execute p).Agree R ({ e with machine := m }.execute p)) :
    e.cycle.Agree R { e with machine := m }.cycle := by
  -- up to the routine, a cycle looks at memory and the program counter only
  have next : nextByte { e with machine := m } = e.nextByte := by
    rw [nextByte, memory, programCounter, nextByte]
  rcases e.cycle_cases with
    ⟨idle, unbound⟩ | ⟨p, event, waiting, consumes⟩ | ⟨p, pending, ready, -⟩
  . have skips : cycle { e with machine := m } = skip { e with machine := m } := by
      apply cycle_of_unbound
      . exact idle
      . rw [next, unbound]
    rw [cycle_of_unbound idle unbound, skips]
    refine ⟨?_, ?_, advance e.pending⟩
    . simp only [skip, next]
    . simp only [skip, next, programCounter]
  . have consumes' : Consumes { e with machine := m } p event waiting := by
      cases consumes with
      | opcode idle bound =>
        rw [opened, ← next, ← programCounter]
        exact .opcode idle (next ▸ bound)
      | operand collecting kind =>
        rw [← next, ← programCounter]
        exact .operand collecting kind
    have cycle := cycle_of_consumes consumes
    rw [cycle, cycle_of_consumes consumes']
    apply Reaction.Agree.after
    cases ready : p.isReady with
    | true =>
      rw [e.proceed_of_ready ready] at cycle ⊢
      rw [proceed_of_ready _ ready]
      exact execute p event (decoding.placed consumes) ready cycle
    | false =>
      rw [proceed_of_not_ready _ ready, proceed_of_not_ready _ ready]
      refine ⟨rfl, ?_, advance (some p)⟩
      simp only [programCounter]
  . rw [decoding.not_ready pending] at ready
    contradiction

namespace TandemWhile

variable {Calm : Event → Prop} {R : Engine → Engine → Prop} (tandem : TandemWhile Calm R)
  {e f : Engine}
include tandem

theorem step (related : R e f) (calm : ∀ event ∈ e.step.events, Calm event) :
    e.step.Agree R f.step := by
  have completes := e.completesIn_step
  generalize e.step = r at completes calm ⊢
  generalize e.stepLength = n at completes
  -- on the cycles that the first engine takes; the second follows one by one
  induction completes generalizing f with
  | last completes =>
    have first := tandem.cycle related calm
    rw [first.result] at completes
    rw [step_of_completes completes]
    exact first
  | more waits rest ih =>
    obtain ⟨calm, calm_rest⟩ := List.forall_mem_append.1 calm
    have first := tandem.cycle related calm
    rw [first.result] at waits
    rw [step_of_waits waits]
    exact first.andThen (ih first.engine calm_rest)

theorem run (n : Nat) (related : R e f) (calm : ∀ event ∈ (e.run n).events, Calm event) :
    (e.run n).Agree R (f.run n) := by
  induction n generalizing e f with
  | zero => exact ⟨rfl, rfl, related⟩
  | succ n ih =>
    rw [run_succ] at calm ⊢
    rw [run_succ]
    obtain ⟨calm, calm_rest⟩ := List.forall_mem_append.1 calm
    have first := tandem.cycle related calm
    have rest := ih first.engine calm_rest
    have both := first.andThen rest
    refine ⟨?_, both.events, both.engine⟩
    simp only [Reaction.andThen, first.result, rest.result]

theorem writeCells (cells : List (UInt8 × UInt8)) {r s : Reaction Unit} (h : r.Agree R s) :
    (cells.foldl (fun r (a, v) => r.andThen (Engine.setVideoMemory a v)) r).Agree R
      (cells.foldl (fun r (a, v) => r.andThen (Engine.setVideoMemory a v)) s) := by
  induction cells generalizing r s with
  | nil => exact h
  | cons cell cells ih =>
    apply ih
    exact h.andThen (tandem.setVideoMemory h.engine cell.1 cell.2)

theorem loadImage (related : R e f) (image : Image) :
    (e.loadImage image).Agree R (f.loadImage image) := by
  have loaded := tandem.load related image.memory.toList
  apply tandem.writeCells
  exact ⟨rfl, loaded.events, loaded.engine⟩

theorem perform (related : R e f) (operation : Operation)
    (calm : ∀ event ∈ (e.perform operation).events, Calm event) :
    (e.perform operation).Agree R (f.perform operation) := by
  cases operation with
  | cycle => exact (tandem.cycle related calm).map Answer.outcome
  | step => exact (tandem.step related calm).map Answer.outcome
  | run cycles => exact (tandem.run cycles related calm).map Answer.count
  | load program => exact (tandem.load related program).map Answer.count
  | loadImage image => exact (tandem.loadImage related image).map fun _ => Answer.done
  | reset => exact (tandem.reset related).map fun _ => Answer.done
  | setRegister r value => exact (tandem.setRegister related r value).map fun _ => Answer.done
  | setMemory address value =>
    exact (tandem.setMemory related address value).map fun _ => Answer.done
  | setVideoMemory address value =>
    exact (tandem.setVideoMemory related address value).map fun _ => Answer.done
  | setProgramCounter value =>
    exact (tandem.setProgramCounter related value).map fun _ => Answer.done

theorem watch (view : Snapshot → Snapshot)
    (sees : ∀ {e f}, R e f → view e.snapshot = view f.snapshot) (related : R e f)
    (operations : List Operation)
    (calm : ∀ sight ∈ e.watch operations, ∀ event ∈ sight.events, Calm event) :
    (e.watch operations).map (Sight.through view) =
      (f.watch operations).map (Sight.through view) := by
  induction operations generalizing e f with
  | nil => rfl
  | cons operation rest ih =>
    obtain ⟨calm, calm_rest⟩ := List.forall_mem_cons.1 calm
    have first := tandem.perform related operation calm
    simp only [Engine.watch, List.map_cons, Sight.through, first.result, first.events,
      sees first.engine]
    exact congrArg _ (ih first.engine calm_rest)

end TandemWhile

theorem Tandem.watch {R : Engine → Engine → Prop} (tandem : Tandem R) {e f : Engine}
    (view : Snapshot → Snapshot) (sees : ∀ {e f}, R e f → view e.snapshot = view f.snapshot)
    (related : R e f) (operations : List Operation) :
    (e.watch operations).map (Sight.through view) =
      (f.watch operations).map (Sight.through view) := by
  have always : TandemWhile (fun _ => True) R :=
    { tandem with cycle := fun related _ => tandem.cycle related }
  exact always.watch view sees related operations fun _ _ _ _ => trivial

end Engine
end ByteMachine
