/-!
This module contains the sections of the long form of an image and the order they may come in.
-/

namespace ByteMachine

inductive Section where
  | start
  | filename
  | memory
  | vram
  | stop
deriving DecidableEq

namespace Section

def header : Section → Option String
  | .start => none
  | .filename => some "FILENAME"
  | .memory => some "MEMORY"
  | .vram => some "VRAM"
  | .stop => none

def label : Section → String
  | .start => "start of file"
  | .filename => "FILENAME"
  | .memory => "MEMORY"
  | .vram => "VRAM"
  | .stop => "end of file"

def mayPrecede (s next : Section) : Bool :=
  match s, next with
  | .start, .filename => true
  | .start, .memory => true
  | .filename, .memory => true
  | .memory, .vram => true
  | .memory, .stop => true
  | .vram, .stop => true
  | _, _ => false

end Section
end ByteMachine
