/-!
This module contains the limits of the computer that a program runs on: how far its counters go,
and how much room it has for a list whose length a caller chooses.
-/

namespace ByteMachine

structure Host where
  wordBytes : Nat
  /-- The most bytes that are free for one list. -/
  memory : Nat
  /-- A counter that runs over ends the program; else it goes on from zero. -/
  checksCounters : Bool
deriving DecidableEq

inductive Crash where
  | capacityOverflow
  | outOfMemory
  | counterOverflow
deriving DecidableEq

namespace Host

def counterLimit (host : Host) : Nat :=
  (1 <<< (8 * host.wordBytes)) - 1

/--
The most bytes that may be asked for at once: addresses have to be apart by a signed number.
-/
def allocationLimit (host : Host) : Nat :=
  (1 <<< (8 * host.wordBytes - 1)) - 1

def increment (host : Host) (counter : Nat) : Except Crash Nat :=
  if counter < host.counterLimit then .ok (counter + 1)
  else if host.checksCounters then .error .counterOverflow
  else .ok 0

def allocate (host : Host) (bytes : Nat) : Except Crash Unit :=
  if host.allocationLimit < bytes then .error .capacityOverflow
  else if host.memory < bytes then .error .outOfMemory
  else .ok ()

def wide : Host where
  wordBytes := 8
  memory := 1 <<< 47
  checksCounters := true

theorem increment_of_lt {host : Host} {counter : Nat} (below : counter < host.counterLimit) :
    host.increment counter = .ok (counter + 1) :=
  if_pos below

theorem allocate_of_le {host : Host} {bytes : Nat} (limit : bytes ≤ host.allocationLimit)
    (memory : bytes ≤ host.memory) : host.allocate bytes = .ok () := by
  rw [allocate, if_neg (Nat.not_lt.2 limit), if_neg (Nat.not_lt.2 memory)]

theorem allocate_of_limit_lt {host : Host} {bytes : Nat} (exceeds : host.allocationLimit < bytes) :
    host.allocate bytes = .error .capacityOverflow :=
  if_pos exceeds

theorem allocate_of_memory_lt {host : Host} {bytes : Nat} (limit : bytes ≤ host.allocationLimit)
    (exceeds : host.memory < bytes) : host.allocate bytes = .error .outOfMemory := by
  rw [allocate, if_neg (Nat.not_lt.2 limit), if_pos exceeds]

end Host
end ByteMachine
