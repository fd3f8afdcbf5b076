import ByteMachine.Fault

/-!
This module contains the bounded stack of return addresses.
-/

namespace ByteMachine

structure CallStack where
  depth : Nat
  /-- The return addresses, the latest first. -/
  entries : List UInt8 := []
deriving DecidableEq

namespace CallStack

def frames (s : CallStack) : List UInt8 :=
  s.entries.reverse

def push (s : CallStack) (address : UInt8) : Except Fault CallStack :=
  if s.entries.length < s.depth then
    .ok { s with entries := address :: s.entries }
  else
    .error (.callStackOverflow s.depth)

def pop (s : CallStack) : Except Fault (UInt8 × CallStack) :=
  match s.entries with
  | [] => .error .callStackUnderflow
  | address :: rest => .ok (address, { s with entries := rest })

def clear (s : CallStack) : CallStack :=
  { s with entries := [] }

theorem eq_of_frames {s t : CallStack} (depth : s.depth = t.depth) (frames : s.frames = t.frames) :
    s = t := by
  cases s
  cases t
  rw [mk.injEq]
  exact ⟨depth, List.reverse_inj.1 frames⟩

theorem push_eq_ok_iff {s t : CallStack} {address : UInt8} :
    s.push address = .ok t ↔
      s.frames.length < s.depth ∧ t.depth = s.depth ∧ t.frames = s.frames ++ [address] := by
  obtain ⟨depth, entries⟩ := s
  obtain ⟨depth', entries'⟩ := t
  simp only [push, frames, List.length_reverse]
  split
  . next h =>
    simp only [Except.ok.injEq, mk.injEq, h, true_and]
    constructor
    . rintro ⟨rfl, rfl⟩
      simp
    . rintro ⟨rfl, h'⟩
      simpa using (congrArg List.reverse h').symm
  . next h => simp [h]

theorem frames_of_pop {s t : CallStack} {address : UInt8} (h : s.pop = .ok (address, t)) :
    s.frames = t.frames ++ [address] := by
  obtain ⟨depth, entries⟩ := s
  cases entries with
  | nil => simp [pop] at h
  | cons first rest =>
    cases h
    simp [frames]

theorem depth_of_pop {s t : CallStack} {address : UInt8} (h : s.pop = .ok (address, t)) :
    t.depth = s.depth := by
  obtain ⟨depth, entries⟩ := s
  cases entries with
  | nil => simp [pop] at h
  | cons first rest =>
    cases h
    rfl

theorem pop_push {s t : CallStack} {address : UInt8} (h : s.push address = .ok t) :
    t.pop = .ok (address, s) := by
  simp only [push] at h
  split at h
  . cases h
    rfl
  . simp at h

end CallStack
end ByteMachine
