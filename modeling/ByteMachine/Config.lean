/-!
This module contains the limits a machine is built with.
-/

namespace ByteMachine

structure Config where
  callStackDepth : Nat := 16
  bankCount : UInt8 := 4
  paletteCount : UInt8 := 4
deriving DecidableEq

end ByteMachine
