import ByteMachine.Engine.Outcome
import ByteMachine.Engine

/-!
This module contains the operations a host can perform on an engine, as values.
-/

namespace ByteMachine

inductive Operation where
  | cycle
  | step
  | run (cycles : Nat)
  | load (program : List UInt8)
  | loadImage (image : Image)
  | reset
  | setRegister (register : Register) (value : UInt8)
  | setMemory (address value : UInt8)
  | setVideoMemory (address value : UInt8)
  | setProgramCounter (value : UInt8)
deriving DecidableEq

inductive Answer where
  | done
  | outcome (outcome : Outcome)
  | count (n : Nat)
deriving DecidableEq

namespace Reaction

def map (f : α → β) (r : Reaction α) : Reaction β :=
  { r with result := f r.result }

end Reaction

namespace Engine

def perform (operation : Operation) (e : Engine) : Reaction Answer :=
  match operation with
  | .cycle => e.cycle.map .outcome
  | .step => e.step.map .outcome
  | .run cycles => (e.run cycles).map .count
  | .load program => (e.load program).map .count
  | .loadImage image => (e.loadImage image).map fun _ => .done
  | .reset => e.reset.map fun _ => .done
  | .setRegister r value => (e.setRegister r value).map fun _ => .done
  | .setMemory address value => (e.setMemory address value).map fun _ => .done
  | .setVideoMemory address value => (e.setVideoMemory address value).map fun _ => .done
  | .setProgramCounter value => (e.setProgramCounter value).map fun _ => .done

end Engine
end ByteMachine
