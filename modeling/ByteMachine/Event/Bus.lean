import ByteMachine.Event
import ByteMachine.Log

/-!
This module contains the event bus. Channels are declared first and the bus is then sealed; only a
sealed bus takes listeners, so what can be listened to is settled before anyone listens.

A dispatch calls the listeners a channel has when the dispatch begins, in the order in which they
subscribed. A listener may make requests of the bus in turn, which are answered at once; one that
it subscribes hears later dispatches only.
-/

namespace ByteMachine
namespace Bus

inductive Error where
  | alreadySealed
  | notSealed
  | eventNotFound (kind : EventKind)
  | duplicateChannel (kind : EventKind)
deriving DecidableEq

def Error.message : Error → String
  | .alreadySealed => "event bus is sealed; no further channels may be declared"
  | .notSealed => "event bus must be sealed before listening"
  | .eventNotFound kind => s!"no channel declared for {kind.name}"
  | .duplicateChannel kind => s!"channel {kind.name} is already declared"

inductive Reply where
  | done
  | flag (value : Bool)
  | text (value : String)
deriving DecidableEq

inductive Note where
  | heard (tag : String) (event : Event)
  | answered (tag : String) (reply : Except Error Reply)

mutual

/--
What can be asked of a bus. Who subscribes gives a tag and how to react to an event, which may
depend on everything that has been noted down.
-/
inductive Request where
  | register (kind : EventKind)
  | sealOff
  | isSealed
  | hasChannel (kind : EventKind)
  | subscribe (kind : EventKind) (tag : String) (react : Event → List Note → Script)
  | subscribeAll (tag : String) (react : Event → List Note → Script)
  | dispatch (event : Event)
  /-- Dispatches, and logs a failure instead of giving it back. -/
  | publish (event : Event)
  | kindOf (event : Event)
  | summary

/--
Requests made one after another, each in view of what has been noted down by then.
-/
inductive Script where
  | done
  | ask (request : Request) (next : List Note → Script)

end

structure Listener where
  tag : String
  react : Event → List Note → Script

def Script.ofRequests : List Request → Script
  | [] => .done
  | request :: rest => .ask request fun _ => ofRequests rest

namespace Request

def listen (kind : EventKind) (tag : String) (requests : List Request) : Request :=
  .subscribe kind tag fun _ _ => .ofRequests requests

def listenAll (tag : String) (requests : List Request) : Request :=
  .subscribeAll tag fun _ _ => .ofRequests requests

end Request

inductive Turn where
  | asked (tag : String) (request : Request)
  | called (listener : Listener) (event : Event)
  | returned
  | answered (tag : String) (reply : Except Error Reply)

def Turn.note? : Turn → Option Note
  | .called listener event => some (.heard listener.tag event)
  | .answered tag reply => some (.answered tag reply)
  | .asked .. => none
  | .returned => none

end Bus

structure Bus where
  /-- The listeners of each declared kind, the earliest first. -/
  channels : EventKind → Option (List Bus.Listener)
  isSealed : Bool

namespace Bus

def new : Bus where
  channels := fun _ => none
  isSealed := false

def standard : Bus where
  channels := fun _ => some []
  isSealed := true

def register (bus : Bus) (kind : EventKind) : Except Error Bus :=
  if bus.isSealed then
    .error .alreadySealed
  else if (bus.channels kind).isSome then
    .error (.duplicateChannel kind)
  else
    .ok { bus with channels := fun k => if k = kind then some [] else bus.channels k }

def sealOff (bus : Bus) : Bus :=
  { bus with isSealed := true }

def hasChannel (bus : Bus) (kind : EventKind) : Bool :=
  (bus.channels kind).isSome

def listen (bus : Bus) (kind : EventKind) (listener : Listener) : Except Error Bus :=
  if !bus.isSealed then
    .error .notSealed
  else
    match bus.channels kind with
    | none => .error (.eventNotFound kind)
    | some listeners =>
      let listeners := listeners ++ [listener]
      .ok { bus with channels := fun k => if k = kind then some listeners else bus.channels k }

def listenAll (bus : Bus) (listener : Listener) : Except Error Bus :=
  if !bus.isSealed then
    .error .notSealed
  else
    .ok { bus with channels := fun k => (bus.channels k).map (· ++ [listener]) }

def summary (bus : Bus) : String :=
  let entries := EventKind.all.filterMap fun kind =>
    (bus.channels kind).map fun listeners => s!"{kind.name}({listeners.length})"
  let sorted := entries.mergeSort fun a b => !decide (b < a)
  let quoted := ", ".intercalate (sorted.map fun entry => "\"" ++ entry ++ "\"")
  "EventBus \x7b sealed: " ++ toString bus.isSealed ++ ", channels: [" ++ quoted ++ "] \x7d"

structure Response where
  reply : Except Error Reply
  bus : Bus
  turns : List Turn := []
  log : List Log.Record := []

namespace Response

def ofExcept (bus : Bus) : Except Error Bus → Response
  | .ok changed => { reply := .ok .done, bus := changed }
  | .error error => { reply := .error error, bus }

def notes (r : Response) : List Note :=
  r.turns.filterMap Turn.note?

def after (r : Response) (turns : List Turn) (log : List Log.Record) : Response :=
  { r with turns := turns ++ r.turns, log := log ++ r.log }

end Response

def Request.event? : Request → Option Event
  | .dispatch event => some event
  | .publish event => some event
  | _ => none

def due (bus : Bus) (request : Request) : Option (Event × List Listener) := do
  let event ← request.event?
  return (event, ← bus.channels event.kind)

def settle (bus : Bus) : Request → Response
  | .register kind => .ofExcept bus (bus.register kind)
  | .sealOff => { reply := .ok .done, bus := bus.sealOff }
  | .isSealed => { reply := .ok (.flag bus.isSealed), bus }
  | .hasChannel kind => { reply := .ok (.flag (bus.hasChannel kind)), bus }
  | .subscribe kind tag react => .ofExcept bus (bus.listen kind ⟨tag, react⟩)
  | .subscribeAll tag react => .ofExcept bus (bus.listenAll ⟨tag, react⟩)
  | .dispatch event => { reply := .error (.eventNotFound event.kind), bus }
  | .publish event =>
    let text := s!"dropped {event.kind.name}: {(Error.eventNotFound event.kind).message}"
    { reply := .ok .done, bus, log := [⟨.error, text⟩] }
  | .kindOf event => { reply := .ok (.text event.kind.name), bus }
  | .summary => { reply := .ok (.text bus.summary), bus }

section

variable (answer : Bus → List Note → Request → Option Response)

def serve (bus : Bus) (before : List Note) (tag : String) : Script → Option Response
  | .done => some { reply := .ok .done, bus }
  | .ask request next => do
    let first ← answer bus before request
    let known := before ++ first.notes ++ [.answered tag first.reply]
    let last ← serve first.bus known tag (next known)
    return last.after (.asked tag request :: first.turns ++ [.answered tag first.reply]) first.log

def deliver (bus : Bus) (before : List Note) (event : Event) : List Listener → Option Response
  | [] => some { reply := .ok .done, bus }
  | listener :: rest => do
    let known := before ++ [.heard listener.tag event]
    let first ← serve answer bus known listener.tag (listener.react event known)
    let last ← deliver first.bus (known ++ first.notes) event rest
    return last.after (.called listener event :: first.turns ++ [.returned]) first.log

end

/--
Answers a request. There is no response if dispatches are nested deeper than this.
-/
def answerWithin (depth : Nat) (bus : Bus) (before : List Note) (request : Request) :
    Option Response :=
  match bus.due request, depth with
  | none, _ => some (bus.settle request)
  | some _, 0 => none
  | some (event, listeners), depth + 1 => deliver (answerWithin depth) bus before event listeners

/--
How deep dispatches may be nested. Each takes some of the call stack, which has an end.
-/
def nestingLimit : Nat := 65536

def answer (bus : Bus) (request : Request) : Option Response :=
  answerWithin nestingLimit bus [] request

end Bus
end ByteMachine
