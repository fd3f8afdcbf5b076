import ByteMachine.Proofs.Event.Delivery

/-!
This module contains the seal protocol: what a bus answers, and what it is, can be told from what
has been asked of it. The kinds are those declared before it is first sealed, the listeners those
who subscribe afterwards, and what it refuses changes nothing.
-/

namespace ByteMachine
namespace Bus

def Turn.seals : Turn → Bool
  | .asked _ .sealOff => true
  | _ => false

def Turn.declares (kind : EventKind) : Turn → Bool
  | .asked _ (.register k) => k = kind
  | _ => false

def Turn.asks : Turn → Bool
  | .asked .. => true
  | _ => false

def sealedIn (turns : List Turn) : Bool :=
  turns.any Turn.seals

def beforeSeal (turns : List Turn) : List Turn :=
  turns.takeWhile (!·.seals)

def sinceSeal (turns : List Turn) : List Turn :=
  turns.dropWhile (!·.seals)

def declaredIn (kind : EventKind) (turns : List Turn) : Bool :=
  (beforeSeal turns).any (·.declares kind)

def replay (turns : List Turn) : Bus where
  channels kind :=
    if declaredIn kind turns then some (subscriptions kind (sinceSeal turns)) else none
  isSealed := sealedIn turns

def verdict (past : List Turn) : Request → Except Error Reply
  | .register kind =>
    if sealedIn past then .error .alreadySealed
    else if declaredIn kind past then .error (.duplicateChannel kind)
    else .ok .done
  | .sealOff => .ok .done
  | .isSealed => .ok (.flag (sealedIn past))
  | .hasChannel kind => .ok (.flag (declaredIn kind past))
  | .subscribe kind _ _ =>
    if !sealedIn past then .error .notSealed
    else if !declaredIn kind past then .error (.eventNotFound kind)
    else .ok .done
  | .subscribeAll _ _ => if sealedIn past then .ok .done else .error .notSealed
  | .dispatch event =>
    if declaredIn event.kind past then .ok .done else .error (.eventNotFound event.kind)
  | .publish _ => .ok .done
  | .kindOf event => .ok (.text event.kind.name)
  | .summary => .ok (.text (replay past).summary)

theorem eq_of_channels {a b : Bus} (channels : ∀ kind, a.channels kind = b.channels kind)
    (isSealed : a.isSealed = b.isSealed) : a = b := by
  cases a
  cases b
  rw [mk.injEq]
  exact ⟨funext channels, isSealed⟩

theorem new_eq_replay : new = replay [] := rfl

theorem beforeSeal_append (past more : List Turn) :
    beforeSeal (past ++ more) =
      if sealedIn past then beforeSeal past else past ++ beforeSeal more := by
  induction past with
  | nil => rfl
  | cons turn past ih =>
    simp only [beforeSeal, sealedIn] at ih
    simp only [beforeSeal, sealedIn, List.cons_append, List.takeWhile_cons, List.any_cons, ih]
    cases turn.seals
    . simp only [Bool.not_false, ↓reduceIte, Bool.false_or]
      exact apply_ite (turn :: ·) _ _ _
    . rfl

theorem sinceSeal_append (past more : List Turn) :
    sinceSeal (past ++ more) =
      if sealedIn past then sinceSeal past ++ more else sinceSeal more := by
  induction past with
  | nil => rfl
  | cons turn past ih =>
    simp only [sinceSeal, sealedIn] at ih
    simp only [sinceSeal, sealedIn, List.cons_append, List.dropWhile_cons, List.any_cons, ih]
    cases turn.seals <;> rfl

section Sealed

variable {past : List Turn} (sealed : sealedIn past)
include sealed

theorem declaredIn_append_of_sealed (kind : EventKind) (more : List Turn) :
    declaredIn kind (past ++ more) = declaredIn kind past := by
  rw [declaredIn, beforeSeal_append, if_pos sealed, declaredIn]

theorem replay_append_of_sealed (more : List Turn) :
    replay (past ++ more) = (replay past).following more := by
  have channels : ∀ kind, (replay (past ++ more)).channels kind =
      ((replay past).channels kind).map (· ++ subscriptions kind more) := by
    intro kind
    simp only [replay, declaredIn_append_of_sealed sealed, sinceSeal_append, sealed, if_true]
    split <;> simp [subscriptions]
  have isSealed : sealedIn (past ++ more) = sealedIn past := by
    rw [sealedIn, List.any_append, ← sealedIn, sealed, Bool.true_or]
  simp only [following, ← channels]
  rw [replay, replay, isSealed]

end Sealed

section Unsealed

variable {past : List Turn} (unsealed : sealedIn past = false)
include unsealed

theorem beforeSeal_of_unsealed : beforeSeal past = past := by
  have whole := beforeSeal_append past []
  rw [unsealed, List.append_nil] at whole
  rw [whole]
  exact List.append_nil past

theorem sinceSeal_of_unsealed : sinceSeal past = [] := by
  have whole := sinceSeal_append past []
  rw [unsealed, List.append_nil] at whole
  exact whole

theorem channels_replay_of_unsealed (kind : EventKind) :
    (replay past).channels kind = if past.any (·.declares kind) then some [] else none := by
  simp only [replay, declaredIn, beforeSeal_of_unsealed unsealed, sinceSeal_of_unsealed unsealed]
  rfl

theorem listeners_eq_nil_of_unsealed {kind : EventKind} {listeners : List Listener}
    (channel : (replay past).channels kind = some listeners) : listeners = [] := by
  rw [channels_replay_of_unsealed unsealed] at channel
  split at channel
  . exact (Option.some.inj channel).symm
  . contradiction

theorem replay_append_of_idle {turn : Turn} (seals : turn.seals = false)
    (declares : ∀ kind, turn.declares kind = false) : replay (past ++ [turn]) = replay past := by
  have still : sealedIn (past ++ [turn]) = false := by
    rw [sealedIn, List.any_append, ← sealedIn, unsealed]
    simp [seals]
  apply eq_of_channels
  . intro kind
    rw [channels_replay_of_unsealed still, channels_replay_of_unsealed unsealed, List.any_append]
    simp [declares]
  . exact still.trans unsealed.symm

theorem replay_append_register (tag : String) (kind : EventKind) :
    replay (past ++ [.asked tag (.register kind)]) =
      ((replay past).settle (.register kind)).bus := by
  have still : sealedIn (past ++ [.asked tag (.register kind)]) = false := by
    rw [sealedIn, List.any_append, ← sealedIn, unsealed]
    rfl
  have isSealed : (replay past).isSealed = false := unsealed
  have before := channels_replay_of_unsealed unsealed
  have after : ∀ k, (replay (past ++ [.asked tag (.register kind)])).channels k =
      if past.any (·.declares k) || kind = k then some [] else none := by
    intro k
    rw [channels_replay_of_unsealed still, List.any_append, List.any_cons, List.any_nil,
      Bool.or_false]
    rfl
  cases declared : past.any (·.declares kind) with
  | true =>
    have refused : (replay past).register kind = .error (.duplicateChannel kind) := by
      rw [register, isSealed, before, declared]
      rfl
    rw [settle, refused]
    apply eq_of_channels
    . intro k
      rw [after, Response.ofExcept, before]
      by_cases same : kind = k
      . subst same
        rw [declared]
        rfl
      . simp [same]
    . exact still.trans isSealed.symm
  | false =>
    have taken : (replay past).register kind =
        .ok { replay past with
          channels := fun k => if k = kind then some [] else (replay past).channels k } := by
      rw [register, if_neg (by simp [isSealed]), if_neg (by simp [before, declared])]
    rw [settle, taken]
    apply eq_of_channels
    . intro k
      rw [after, Response.ofExcept]
      by_cases same : kind = k
      . simp [same]
      . simp [same, Ne.symm same, before]
    . exact still.trans isSealed.symm

theorem replay_append_sealOff (tag : String) :
    replay (past ++ [.asked tag .sealOff]) = (replay past).sealOff := by
  apply eq_of_channels
  . intro kind
    have draft : beforeSeal (past ++ [.asked tag .sealOff]) = past := by
      rw [beforeSeal_append, unsealed]
      exact List.append_nil past
    have service : sinceSeal (past ++ [.asked tag .sealOff]) = [.asked tag .sealOff] := by
      rw [sinceSeal_append, unsealed]
      rfl
    rw [sealOff, channels_replay_of_unsealed unsealed]
    simp only [replay, declaredIn, draft, service]
    rfl
  . rw [replay, sealedIn, List.any_append]
    exact Bool.or_true _

end Unsealed

theorem replay_append_asked (past : List Turn) (tag : String) (request : Request) :
    replay (past ++ [.asked tag request]) = ((replay past).settle request).bus := by
  -- after the seal subscriptions count, before it the declared kinds do
  cases sealed : sealedIn past with
  | true =>
    have isSealed : (replay past).isSealed := sealed
    rw [replay_append_of_sealed sealed]
    exact following_asked isSealed tag request
  | false =>
    have isSealed : (replay past).isSealed = false := sealed
    cases request with
    | register kind => exact replay_append_register sealed tag kind
    | sealOff => exact replay_append_sealOff sealed tag
    | subscribe kind name react =>
      rw [settle, listen, isSealed]
      exact replay_append_of_idle sealed rfl fun _ => rfl
    | subscribeAll name react =>
      rw [settle, listenAll, isSealed]
      exact replay_append_of_idle sealed rfl fun _ => rfl
    | _ => exact replay_append_of_idle sealed rfl fun _ => rfl

theorem replay_append_quiet (past : List Turn) (turn : Turn) (quiet : turn.asks = false) :
    replay (past ++ [turn]) = replay past := by
  cases sealed : sealedIn past with
  | true =>
    rw [replay_append_of_sealed sealed]
    apply following_of_silent
    intro kind
    cases turn with
    | asked tag request => cases quiet
    | _ => rfl
  | false =>
    cases turn with
    | asked tag request => cases quiet
    | _ => exact replay_append_of_idle sealed rfl fun _ => rfl

theorem due_eq_some_iff {bus : Bus} {request : Request} {event : Event}
    {listeners : List Listener} :
    bus.due request = some (event, listeners) ↔
      request.event? = some event ∧ bus.channels event.kind = some listeners := by
  simp only [due, Option.bind_eq_bind, Option.bind_eq_some_iff, Option.pure_def, Option.some.injEq,
    Prod.mk.injEq]
  constructor
  . rintro ⟨_, event, _, channel, rfl, rfl⟩
    exact ⟨event, channel⟩
  . rintro ⟨event, channel⟩
    exact ⟨_, event, _, channel, rfl, rfl⟩

@[simp]
theorem isSealed_replay (turns : List Turn) : (replay turns).isSealed = sealedIn turns := rfl

@[simp]
theorem isSome_channels_replay (turns : List Turn) (kind : EventKind) :
    ((replay turns).channels kind).isSome = declaredIn kind turns := by
  simp only [replay]
  cases declaredIn kind turns <;> rfl

theorem reply_settle {past : List Turn} {request : Request}
    (quiet : (replay past).due request = none) :
    ((replay past).settle request).reply = verdict past request := by
  cases request with
  | register kind =>
    rw [settle, register, isSealed_replay, isSome_channels_replay, verdict]
    split
    . rfl
    . split <;> rfl
  | subscribe kind name react =>
    rw [settle, listen, isSealed_replay, verdict, ← isSome_channels_replay]
    split
    . rfl
    . cases (replay past).channels kind <;> rfl
  | subscribeAll name react =>
    rw [settle, listenAll, isSealed_replay, verdict]
    cases sealedIn past <;> rfl
  | hasChannel kind => rw [settle, hasChannel, isSome_channels_replay, verdict]
  | dispatch event =>
    have undeclared : (replay past).channels event.kind = none := by
      rw [Option.eq_none_iff_forall_ne_some]
      intro listeners channel
      rw [due_eq_some_iff.2 ⟨rfl, channel⟩] at quiet
      cases quiet
    rw [settle, verdict, ← isSome_channels_replay, undeclared]
    rfl
  | _ => rfl

theorem bus_settle_of_error {bus : Bus} {request : Request} {error : Error}
    (refused : (bus.settle request).reply = .error error) : (bus.settle request).bus = bus := by
  have ofExcept : ∀ changed, (Response.ofExcept bus changed).reply = .error error →
      (Response.ofExcept bus changed).bus = bus := by
    intro changed refused
    cases changed with
    | ok changed => cases refused
    | error error => rfl
  cases request with
  | register | subscribe | subscribeAll => exact ofExcept _ refused
  | dispatch => rfl
  | _ => cases refused

theorem verdict_of_due {past : List Turn} {request : Request} {event : Event}
    {listeners : List Listener} (due : (replay past).due request = some (event, listeners)) :
    verdict past request = .ok .done := by
  obtain ⟨brings, channel⟩ := due_eq_some_iff.1 due
  have declared : declaredIn event.kind past := by
    rw [← isSome_channels_replay, channel, Option.isSome_some]
  cases request with
  | dispatch other =>
    cases brings
    rw [verdict, if_pos declared]
  | publish other => rfl
  | _ => cases brings

theorem Finishes.reply_eq {bus : Bus} {before : List Note} {task : Task} {r : Response}
    (h : Finishes bus before task r) (other : ∀ request, task ≠ .answer request) :
    r.reply = .ok .done := by
  induction h with
  | settle | dispatch => exact absurd rfl (other _)
  | nobody | done => rfl
  | call _ _ _ _ others => exact others nofun
  | ask _ _ _ _ others => exact others nofun

/--
The reply is the one that follows from what was asked before. Those are called who are to be, and a
refusal leaves the bus as it is and calls no one. Who subscribes to everything is added once to each
declared kind.
-/
structure Heeds (past : List Turn) (request : Request) (r : Response) : Prop where
  reply_eq : r.reply = verdict past request
  calls : Calls ((replay past).callees request) r.turns
  refused : ∀ error, r.reply = .error error → r.bus = replay past ∧ r.turns = []
  subscribed : ∀ tag react, request = .subscribeAll tag react → sealedIn past →
    ∀ kind, r.bus.channels kind = ((replay past).channels kind).map (· ++ [⟨tag, react⟩])

theorem Finishes.calls {past : List Turn} {known : List Note} {request : Request} {r : Response}
    (h : Finishes (replay past) known (.answer request) r) :
    Calls ((replay past).callees request) r.turns := by
  cases sealed : sealedIn past with
  | true => exact (h.sound sealed).shape
  | false =>
    rw [callees_eq]
    cases h with
    | settle quiet =>
      rw [quiet, turns_settle]
      exact .nil
    | @dispatch _ _ _ event listeners _ due delivered =>
      -- who is not there yet cannot be called
      obtain rfl := listeners_eq_nil_of_unsealed sealed (due_eq_some_iff.1 due).2
      rw [due]
      cases delivered
      exact .nil

theorem Finishes.heeds {past : List Turn} {known : List Note} {request : Request} {r : Response}
    (h : Finishes (replay past) known (.answer request) r) : Heeds past request r := by
  refine ⟨?_, h.calls, ?_, ?_⟩
  . cases h with
    | settle quiet => exact reply_settle quiet
    | dispatch due delivered => rw [delivered.reply_eq nofun, verdict_of_due due]
  . intro error refused
    cases h with
    | settle quiet => exact ⟨bus_settle_of_error refused, turns_settle _ _⟩
    | dispatch due delivered =>
      rw [delivered.reply_eq nofun] at refused
      cases refused
  . rintro tag react rfl sealed kind
    cases h with
    | settle quiet =>
      rw [Bus.settle, listenAll, isSealed_replay, sealed]
      rfl
    | dispatch due delivered => cases (due_eq_some_iff.1 due).1

theorem finishes_of_callees_eq_nil {bus : Bus} {request : Request}
    (nobody : bus.callees request = []) (known : List Note) :
    ∃ r, Finishes bus known (.answer request) r := by
  cases due : bus.due request with
  | none => exact ⟨_, .settle due⟩
  | some due' =>
    obtain ⟨event, listeners⟩ := due'
    rw [callees_eq, due] at nobody
    obtain rfl : listeners = [] := List.map_eq_nil_iff.1 nobody
    exact ⟨_, .dispatch due .nobody⟩

/--
The turns past have left the bus as they say, and each request in the turns that follow is put to
the bus of that moment and answered before anything else is.
-/
def Orderly (past turns : List Turn) : Prop :=
  ∀ begun asker request rest, turns = begun ++ .asked asker request :: rest →
    ∃ known first later, Finishes (replay (past ++ begun)) known (.answer request) first ∧
      rest = first.turns ++ .answered asker first.reply :: later

theorem Orderly.append {past first second : List Turn} (h : Orderly past first)
    (h' : Orderly (past ++ first) second) : Orderly past (first ++ second) := by
  intro begun asker request rest split
  rcases List.append_eq_append_iff.1 split with ⟨between, rfl, within⟩ | ⟨between, rfl, within⟩
  . obtain ⟨known, response, later, finishes, rest⟩ := h' between asker request rest within
    rw [List.append_assoc] at finishes
    exact ⟨known, response, later, finishes, rest⟩
  . cases between with
    | nil =>
      rw [List.append_nil] at h'
      obtain ⟨known, response, later, finishes, rest⟩ := h' [] asker request rest within.symm
      rw [List.append_nil] at finishes
      exact ⟨known, response, later, finishes, rest⟩
    | cons turn between =>
      obtain ⟨rfl, rfl⟩ := List.cons.inj within
      obtain ⟨known, response, later, finishes, rfl⟩ := h begun asker request between rfl
      exact ⟨known, response, later ++ second, finishes, by simp⟩

theorem orderly_nil (past : List Turn) : Orderly past [] := by
  intro begun asker request rest split
  simp at split

theorem orderly_quiet (past : List Turn) (turn : Turn) (quiet : turn.asks = false) :
    Orderly past [turn] := by
  intro begun asker request rest split
  cases begun with
  | nil =>
    cases split
    cases quiet
  | cons turn begun => simp at split

theorem orderly_asked {past : List Turn} {known : List Note} {request : Request} {first : Response}
    (finishes : Finishes (replay past) known (.answer request) first) {tag : String}
    (inner : Orderly (past ++ [.asked tag request]) first.turns) :
    Orderly past (.asked tag request :: first.turns ++ [.answered tag first.reply]) := by
  have others := inner.append (orderly_quiet _ (.answered tag first.reply) rfl)
  intro begun asker other rest split
  cases begun with
  | nil =>
    cases split
    exact ⟨known, first, [], by rwa [List.append_nil], rfl⟩
  | cons turn begun =>
    rw [List.cons_append, List.cons_append] at split
    obtain ⟨rfl, within⟩ := List.cons.inj split
    obtain ⟨known, response, later, finishes, rest⟩ := others begun asker other rest within
    rw [List.append_assoc] at finishes
    exact ⟨known, response, later, finishes, rest⟩

structure Traced (past turns : List Turn) (bus : Bus) : Prop where
  bus_eq : bus = replay (past ++ turns)
  orderly : Orderly past turns

namespace Traced

theorem nil {past : List Turn} {bus : Bus} (same : bus = replay past) : Traced past [] bus := by
  refine ⟨?_, orderly_nil past⟩
  rw [List.append_nil, same]

theorem quiet (past : List Turn) (turn : Turn) (quiet : turn.asks = false) :
    Traced past [turn] (replay past) :=
  ⟨(replay_append_quiet past turn quiet).symm, orderly_quiet past turn quiet⟩

theorem append {past first second : List Turn} {bus bus' : Bus} (h : Traced past first bus)
    (h' : Traced (past ++ first) second bus') : Traced past (first ++ second) bus' := by
  refine ⟨?_, h.orderly.append h'.orderly⟩
  rw [h'.bus_eq, List.append_assoc]

theorem called {past turns : List Turn} {listener : Listener} {event : Event} {bus : Bus}
    (inner : Traced (past ++ [.called listener event]) turns bus) :
    Traced past (.called listener event :: turns ++ [.returned]) bus := by
  have begun := Traced.quiet past (.called listener event) rfl
  have ended := Traced.quiet (past ++ ([.called listener event] ++ turns)) .returned rfl
  have back := (begun.append inner).append ended
  rw [← (begun.append inner).bus_eq] at back
  exact back

theorem asked {past : List Turn} {known : List Note} {request : Request} {first : Response}
    (finishes : Finishes (replay past) known (.answer request) first) {tag : String}
    (inner : Traced (past ++ [.asked tag request]) first.turns first.bus) :
    Traced past (.asked tag request :: first.turns ++ [.answered tag first.reply]) first.bus := by
  refine ⟨?_, orderly_asked finishes inner.orderly⟩
  have back := replay_append_quiet (past ++ [.asked tag request] ++ first.turns)
    (.answered tag first.reply) rfl
  rw [inner.bus_eq, ← back]
  simp

end Traced

theorem Finishes.traced {bus : Bus} {before : List Note} {task : Task} {r : Response}
    (h : Finishes bus before task r) {past : List Turn} (entered : task.entered bus = replay past) :
    Traced past r.turns r.bus := by
  -- on the evaluation, with the turns so far as what each part begins with
  induction h generalizing past with
  | settle quiet =>
    rw [turns_settle]
    exact .nil entered
  | dispatch due _ ih =>
    apply ih
    rw [Task.entered, settle_of_due due] at entered
    exact entered
  | nobody | done => exact .nil entered
  | @call bus before known event listener rest first last noted _ _ called others =>
    have begun : bus = replay (past ++ [.called listener event]) := by
      rw [replay_append_quiet _ _ rfl]
      exact entered
    have back := (called begun).called
    exact back.append (others back.bus_eq)
  | @ask bus before known tag request next first last finishes noted _ answered others =>
    have settled : (bus.settle request).bus = replay (past ++ [.asked tag request]) := by
      rw [replay_append_asked]
      exact congrArg (fun bus : Bus => (bus.settle request).bus) entered
    have bus_eq : bus = replay past := entered
    rw [bus_eq] at finishes
    have back := Traced.asked finishes (answered settled)
    exact back.append (others back.bus_eq)

theorem seal_protocol {depth : Nat} {before : List Note} {tag : String} {script : Script}
    {r : Response} (served : serve (answerWithin depth) new before tag script = some r) :
    r.bus = replay r.turns ∧
      (∀ past asker request rest, r.turns = past ++ .asked asker request :: rest →
        (∃ known first later, Finishes (replay past) known (.answer request) first ∧
          rest = first.turns ++ .answered asker first.reply :: later ∧
          Heeds past request first) ∧
        (sealedIn past = false →
          ∀ kind listeners, (replay past).channels kind = some listeners → listeners = []) ∧
        (sealedIn past → ∀ kind, r.bus.hasChannel kind = (replay past).hasChannel kind)) ∧
      ∀ known request, r.bus.callees request = [] →
        ∃ next, Finishes r.bus known (.answer request) next := by
  have finishes : Finishes new before (.serve tag script) r := finishes_of_performWithin served
  have traced : Traced [] r.turns r.bus := finishes.traced new_eq_replay
  refine ⟨traced.bus_eq, ?_, ?_⟩
  . intro past asker request rest split
    refine ⟨?_, ?_, ?_⟩
    . obtain ⟨known, first, later, answered, rest_eq⟩ :=
        traced.orderly past asker request rest split
      exact ⟨known, first, later, answered, rest_eq, answered.heeds⟩
    . intro unsealed kind listeners channel
      exact listeners_eq_nil_of_unsealed unsealed channel
    . intro sealed kind
      rw [traced.bus_eq, List.nil_append, split, hasChannel, hasChannel, isSome_channels_replay,
        isSome_channels_replay, declaredIn_append_of_sealed sealed]
  . intro known request nobody
    exact finishes_of_callees_eq_nil nobody known

def replies (notes : List Note) : List (Except Error Reply) :=
  notes.filterMap fun
    | .heard _ _ => none
    | .answered _ reply => some reply

def founding : Script :=
  .ofRequests
    [.listenAll "early" [], .register .reset, .register .reset, .register .carryChanged, .sealOff,
      .register .reset, .listen .error "lost" [], .listenAll "all" [],
      .listen .reset "eager"
        [.register .error, .listen .carryChanged "late" [], .dispatch (.carryChanged true)],
      .dispatch (.bankSelected 1), .dispatch .reset]

theorem seal_protocol_of_founding :
    ∃ r, serve (answerWithin 2) new [] "host" founding = some r ∧
      replies r.notes =
        [.error .notSealed, .ok .done, .error (.duplicateChannel .reset), .ok .done, .ok .done,
          .error .alreadySealed, .error (.eventNotFound .error), .ok .done, .ok .done,
          .error (.eventNotFound .bankSelected), .error .alreadySealed, .ok .done, .ok .done,
          .ok .done] ∧
      hearers r.notes = ["all", "eager", "all", "late"] ∧
      r.bus = replay r.turns ∧
      (∃ known first, Finishes (replay (r.turns.take 24)) known (.answer (.register .error)) first ∧
        first.reply = .error .alreadySealed ∧ first.bus = replay (r.turns.take 24)) ∧
      r.bus.hasChannel .error = false := by
  have served : ∃ r, serve (answerWithin 2) new [] "host" founding = some r ∧
      replies r.notes =
        [.error .notSealed, .ok .done, .error (.duplicateChannel .reset), .ok .done, .ok .done,
          .error .alreadySealed, .error (.eventNotFound .error), .ok .done, .ok .done,
          .error (.eventNotFound .bankSelected), .error .alreadySealed, .ok .done, .ok .done,
          .ok .done] ∧
      hearers r.notes = ["all", "eager", "all", "late"] ∧
      (∃ rest, r.turns = r.turns.take 24 ++ .asked "eager" (.register .error) :: rest) ∧
      verdict (r.turns.take 24) (.register .error) = .error .alreadySealed ∧
      sealedIn (r.turns.take 24) ∧ declaredIn .error (r.turns.take 24) = false :=
    ⟨_, rfl, rfl, rfl, ⟨_, rfl⟩, rfl, rfl, rfl⟩
  obtain ⟨r, served, replied, heard, ⟨rest, split⟩, refusal, sealed, undeclared⟩ := served
  obtain ⟨bus_eq, moments, -⟩ := seal_protocol served
  obtain ⟨⟨known, first, -, finishes, -, heeds⟩, -, keeps⟩ := moments _ _ _ _ split
  have refused := heeds.reply_eq.trans refusal
  refine ⟨r, served, replied, heard, bus_eq, ⟨known, first, finishes, refused, ?_⟩, ?_⟩
  . exact (heeds.refused _ refused).1
  . rw [keeps sealed, hasChannel, isSome_channels_replay, undeclared]

end Bus
end ByteMachine
