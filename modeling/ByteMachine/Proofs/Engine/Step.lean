import ByteMachine.Proofs.Engine.Cycle

/-!
This module contains the step as a loop of cycles: it goes on until a cycle completes, the number
of its cycles is known beforehand, and a run counts the cycles that complete.
-/

namespace ByteMachine

namespace Reaction

@[simp]
theorem result_after (r : Reaction α) (events : List Event) :
    (r.after events).result = r.result := rfl

@[simp]
theorem engine_after (r : Reaction α) (events : List Event) :
    (r.after events).engine = r.engine := rfl

theorem andThen_assoc (r : Reaction α) (f : Engine → Reaction β) (g : Engine → Reaction γ) :
    (r.andThen f).andThen g = r.andThen fun e => (f e).andThen g := by
  simp [andThen]

@[simp]
theorem after_after (r : Reaction α) (first second : List Event) :
    (r.after second).after first = r.after (first ++ second) := by
  simp [after]

end Reaction

namespace Engine

inductive CompletesIn : Nat → Engine → Reaction Outcome → Prop where
  | last {e : Engine} (completes : e.cycle.result.completes) : CompletesIn 1 e e.cycle
  | more {n : Nat} {e : Engine} {r : Reaction Outcome}
    (waits : e.cycle.result.completes = false) (rest : CompletesIn n e.cycle.engine r) :
      CompletesIn (n + 1) e (e.cycle.andThen fun _ => r)

theorem missing_cycle {e : Engine} (waits : e.cycle.result.completes = false) :
    0 < e.cycle.engine.missing ∧
      ∀ p, e.pending = some p → e.cycle.engine.missing + 1 = p.missing := by
  rcases e.cycle_cases with ⟨idle, unbound⟩ | ⟨p, event, waiting, consumes⟩ | ⟨p, -, -, cycle⟩
  . rw [cycle_of_unbound idle unbound] at waits
    simp [skip, Outcome.completes] at waits
  . rw [cycle_of_consumes consumes] at waits ⊢
    cases ready : p.isReady with
    | true =>
      rw [e.proceed_of_ready ready] at waits
      simp [Reaction.after] at waits
    | false =>
      rw [e.proceed_of_not_ready ready]
      simp only [Pending.isReady, decide_eq_false_iff_not] at ready
      simp only [Reaction.engine_after, missing_await]
      constructor
      . omega
      . intro q collecting
        cases consumes with
        | opcode idle => simp [idle] at collecting
        | @operand p _ h =>
          rw [h] at collecting
          cases collecting
          simp only [Pending.missing_collect] at ready ⊢
          omega
  . rw [cycle] at waits
    simp at waits

theorem finish_of_completes {r : Reaction Outcome} (n : Nat) (h : r.result.completes) :
    finish n r = r := by
  cases n with
  | zero => rfl
  | succ n => rw [finish, if_pos h]

theorem finish_of_waits {r : Reaction Outcome} (n : Nat) (h : r.result.completes = false) :
    finish (n + 1) r = finish n (r.andThen cycle) := by
  rw [finish, if_neg (by simp [h])]

theorem finish_andThen (n : Nat) (r : Reaction α) (next : Engine → Reaction Outcome) :
    finish n (r.andThen next) = r.andThen fun e => finish n (next e) := by
  induction n generalizing next with
  | zero => rfl
  | succ n ih =>
    cases h : (next r.engine).result.completes with
    | true =>
      rw [finish_of_completes (n + 1) (r := r.andThen next) h]
      simp only [Reaction.andThen]
      rw [finish_of_completes (n + 1) h]
    | false =>
      rw [finish_of_waits n (r := r.andThen next) h, Reaction.andThen_assoc, ih]
      simp only [Reaction.andThen]
      rw [finish_of_waits n h]
      rfl

theorem step_of_completes {e : Engine} (h : e.cycle.result.completes) : e.step = e.cycle := by
  rw [step, finish_of_completes _ h]

theorem step_of_waits {e : Engine} (waits : e.cycle.result.completes = false) :
    e.step = e.cycle.andThen step := by
  obtain ⟨n, missing⟩ : ∃ n, e.cycle.engine.missing = n + 1 := by
    have := (missing_cycle waits).1
    exact ⟨e.cycle.engine.missing - 1, by omega⟩
  have bound : ∀ p, e.cycle.engine.pending = some p → p.missing = n + 1 := by
    intro p collecting
    rw [← missing, Engine.missing, collecting]
  have more : finish n e.cycle.engine.cycle = e.cycle.engine.step := by
    cases h : e.cycle.engine.cycle.result.completes with
    | true => rw [finish_of_completes n h, step_of_completes h]
    | false =>
      cases collecting : e.cycle.engine.pending with
      | none => simp [Engine.missing, collecting] at missing
      | some p =>
        have := (missing_cycle h).2 p collecting
        have := bound p collecting
        rw [step, show e.cycle.engine.cycle.engine.missing = n by omega]
  rw [step, missing, finish_of_waits n waits, finish_andThen]
  simp only [Reaction.andThen, more]

theorem step_of_ready {e : Engine} {p : Pending} {event : Event} {waiting : Outcome}
    (consumes : e.Consumes p event waiting) (ready : p.isReady) :
    e.step = (e.execute p).after [event] := by
  have cycle := cycle_of_consumes consumes
  rw [e.proceed_of_ready ready] at cycle
  rw [step_of_completes, cycle]
  rw [cycle]
  simp

theorem step_of_not_ready {e : Engine} {p : Pending} {event : Event} {waiting : Outcome}
    (consumes : e.Consumes p event waiting) (short : p.isReady = false) :
    e.step =
      (e.await p).step.after [event, .programCounterChanged (e.machine.programCounter + 1)] := by
  have cycle := cycle_of_consumes consumes
  rw [e.proceed_of_not_ready short] at cycle
  rw [step_of_waits, cycle]
  . simp [Reaction.after, Reaction.andThen]
  . rw [cycle]
    exact consumes.not_completes

def stepLength (e : Engine) : Nat :=
  match e.pending with
  | some p => max 1 p.missing
  | none =>
    match e.instructions.lookup e.nextByte with
    | none => 1
    | some instruction => instruction.encodedLength

theorem stepLength_of_completes {e : Engine} (h : e.cycle.result.completes) :
    e.stepLength = 1 := by
  rcases e.cycle_cases with ⟨idle, unbound⟩ | ⟨p, event, waiting, consumes⟩ | ⟨p, pending, ready, -⟩
  . simp only [stepLength, idle, unbound]
  . rw [cycle_of_consumes consumes] at h
    cases ready : p.isReady with
    | true =>
      simp only [Pending.isReady, decide_eq_true_eq] at ready
      cases consumes with
      | opcode idle bound =>
        simp only [stepLength, idle, bound, Instruction.encodedLength]
        rw [missing_opened] at ready
        omega
      | operand collecting next =>
        simp only [stepLength, collecting]
        rw [Pending.missing_collect] at ready
        omega
    | false =>
      rw [e.proceed_of_not_ready ready, Reaction.result_after, consumes.not_completes] at h
      contradiction
  . simp only [Pending.isReady, decide_eq_true_eq] at ready
    simp only [stepLength, pending]
    omega

theorem stepLength_of_waits {e : Engine} (waits : e.cycle.result.completes = false) :
    e.stepLength = e.cycle.engine.stepLength + 1 := by
  have length : e.cycle.engine.stepLength = e.cycle.engine.missing := by
    have := (missing_cycle waits).1
    cases pending : e.cycle.engine.pending with
    | none => simp [missing, pending] at this
    | some p =>
      simp only [missing, pending] at this
      simp only [stepLength, missing, pending]
      omega
  rw [length]
  rcases e.cycle_cases with ⟨idle, unbound⟩ | ⟨p, event, waiting, consumes⟩ | ⟨p, -, -, cycle⟩
  . rw [cycle_of_unbound idle unbound] at waits
    simp [skip, Outcome.completes] at waits
  . cases consumes with
    | opcode idle bound =>
      have cycle := cycle_of_consumes (.opcode idle bound)
      cases ready : Pending.isReady _ with
      | true =>
        rw [cycle, proceed_of_ready _ ready] at waits
        simp at waits
      | false =>
        rw [cycle, proceed_of_not_ready _ ready]
        simp [stepLength, idle, bound, Instruction.encodedLength, Nat.add_comm]
    | operand collecting next =>
      have := (missing_cycle waits).2 _ collecting
      simp only [stepLength, collecting]
      omega
  . rw [cycle] at waits
    simp at waits

theorem completesIn_step (e : Engine) : CompletesIn e.stepLength e e.step := by
  generalize length : e.stepLength = n
  induction n generalizing e with
  | zero =>
    cases h : e.cycle.result.completes with
    | true => simp [stepLength_of_completes h] at length
    | false => simp [stepLength_of_waits h] at length
  | succ n ih =>
    cases h : e.cycle.result.completes with
    | true =>
      rw [stepLength_of_completes h] at length
      cases length
      rw [step_of_completes h]
      exact .last h
    | false =>
      rw [stepLength_of_waits h] at length
      rw [step_of_waits h]
      apply CompletesIn.more h
      apply ih
      omega

def cycles : Nat → Engine → List (Reaction Outcome)
  | 0, _ => []
  | n + 1, e => e.cycle :: cycles n e.cycle.engine

theorem run_eq_cycles (n : Nat) (e : Engine) :
    e.run n =
      { result := (e.cycles n).countP (·.result.completes)
        engine := ((e.cycles n).getLast?.map (·.engine)).getD e
        events := (e.cycles n).flatMap (·.events)
        log := (e.cycles n).flatMap (·.log) } := by
  induction n generalizing e with
  | zero => rfl
  | succ n ih =>
    rw [run_succ]
    simp only [Reaction.andThen, ih, cycles, List.countP_cons, List.flatMap_cons,
      List.getLast?_cons, Nat.add_comm]
    cases (e.cycle.engine.cycles n).getLast? <;> rfl

theorem run_add (m n : Nat) (e : Engine) :
    e.run (m + n) =
      let first := e.run m
      let rest := first.engine.run n
      { first.andThen (run n) with result := first.result + rest.result } := by
  induction m generalizing e with
  | zero => simp [Reaction.andThen]
  | succ m ih =>
    rw [Nat.succ_add, run_succ, run_succ]
    simp only [Reaction.andThen, ih]
    simp [Nat.add_assoc]

theorem CompletesIn.run_eq {n : Nat} {e : Engine} {r : Reaction Outcome} (h : CompletesIn n e r) :
    e.run n = { r with result := 1 } := by
  induction h with
  | last completes =>
    rw [run_succ]
    simp [Reaction.andThen, completes]
  | more waits rest ih =>
    rw [run_succ]
    simp only [Reaction.andThen, ih]
    simp [waits]

theorem machine_cycle_of_waits {e : Engine} (waits : e.cycle.result.completes = false) :
    e.cycle.engine.machine = e.machine.advance := by
  rcases e.cycle_cases with ⟨idle, unbound⟩ | ⟨p, event, waiting, consumes⟩ | ⟨p, -, -, cycle⟩
  . rw [cycle_of_unbound idle unbound]
    rfl
  . rw [cycle_of_consumes consumes] at waits ⊢
    cases ready : p.isReady with
    | true =>
      rw [e.proceed_of_ready ready] at waits
      simp at waits
    | false =>
      rw [e.proceed_of_not_ready ready]
      rfl
  . rw [cycle] at waits
    simp at waits

theorem CompletesIn.run_lt {n : Nat} {e : Engine} {r : Reaction Outcome} (h : CompletesIn n e r)
    {m : Nat} (hm : m < n) :
    (e.run m).result = 0 ∧
      (e.run m).engine.machine =
        { e.machine with programCounter := e.machine.programCounter + UInt8.ofNat m } := by
  induction h generalizing m with
  | last =>
    obtain rfl : m = 0 := by omega
    simp
  | @more n e r waits rest ih =>
    cases m with
    | zero => simp
    | succ m =>
      have rest := ih (m := m) (by omega)
      rw [machine_cycle_of_waits waits] at rest
      rw [run_succ]
      simp only [Reaction.andThen, waits, rest, add_ofNat_succ]
      simp [Machine.advance]

end Engine
end ByteMachine
