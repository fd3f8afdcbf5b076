/-!
This module contains log records: what the engine, the decoders and the linker have to say about
their work besides their results.
-/

namespace ByteMachine
namespace Log

inductive Level where
  | error
  | warn
  | info
  | debug
  | trace
deriving DecidableEq

namespace Level

def name : Level → String
  | .error => "ERROR"
  | .warn => "WARN"
  | .info => "INFO"
  | .debug => "DEBUG"
  | .trace => "TRACE"

def verbosity : Level → Nat
  | .error => 0
  | .warn => 1
  | .info => 2
  | .debug => 3
  | .trace => 4

end Level

structure Record where
  level : Level
  text : String
deriving DecidableEq

def Record.isShownAt (limit : Level) (record : Record) : Bool :=
  record.level.verbosity ≤ limit.verbosity

end Log
end ByteMachine
