import ByteMachine.Fault

/-!
This module contains a selector: the current choice among a fixed number of resources.
-/

namespace ByteMachine

@[ext]
structure Selector where
  count : UInt8
  current : UInt8 := 0
deriving DecidableEq

namespace Selector

def select (s : Selector) (value : UInt8) : Except Fault Selector :=
  if value < s.count then
    .ok { s with current := value }
  else
    .error (.parameterOutOfRange value s.count)

section

variable {s : Selector} {value : UInt8} {f : Selector → α}

theorem map_select_eq_ok_iff {chosen : α} :
    (s.select value).map f = .ok chosen ↔
      value < s.count ∧ chosen = f { s with current := value } := by
  simp only [select]
  split
  . next below => simp [Except.map, below, eq_comm]
  . next above => simp [Except.map, above]

theorem map_select_eq_error_iff {fault : Fault} :
    (s.select value).map f = .error fault ↔
      s.count ≤ value ∧ fault = .parameterOutOfRange value s.count := by
  simp only [select]
  split
  . next below => simp [Except.map, UInt8.not_le.2 below]
  . next above => simp [Except.map, UInt8.not_lt.1 above, eq_comm]

end

end Selector
end ByteMachine
