import ByteMachine.Memory

/-!
This module contains images: the contents of both memories, with the name they are kept under.
-/

namespace ByteMachine

structure Image where
  filename : Option String := none
  memory : Memory := .zero
  videoMemory : Memory := .zero
deriving DecidableEq

namespace Image

def ofProgram (program : List UInt8) : Image where
  memory := .ofBytes program

def name? (image : Image) : Option String :=
  image.filename.filter (· ≠ "")

end Image
end ByteMachine
