import ByteMachine.Event.Bus

/-!
This module contains the law of delivery: whatever listeners do while they are called, and however
deep dispatches are nested, each dispatch calls the listeners that were subscribed when it began, in
order, and no one else.
-/

namespace ByteMachine
namespace Bus

inductive Task where
  | answer (request : Request)
  | deliver (event : Event) (listeners : List Listener)
  | serve (tag : String) (script : Script)

def performWithin (depth : Nat) (bus : Bus) (before : List Note) : Task → Option Response
  | .answer request => answerWithin depth bus before request
  | .deliver event listeners => deliver (answerWithin depth) bus before event listeners
  | .serve tag script => serve (answerWithin depth) bus before tag script

section Equations

variable {depth : Nat} {bus : Bus} {before : List Note} {request : Request}

theorem answerWithin_of_not_due (h : bus.due request = none) :
    answerWithin depth bus before request = some (bus.settle request) := by
  rw [answerWithin.eq_def, h]

theorem answerWithin_zero_of_due {due : Event × List Listener} (h : bus.due request = some due) :
    answerWithin 0 bus before request = none := by
  rw [answerWithin.eq_def, h]

theorem answerWithin_succ_of_due {event : Event} {listeners : List Listener}
    (h : bus.due request = some (event, listeners)) :
    answerWithin (depth + 1) bus before request =
      deliver (answerWithin depth) bus before event listeners := by
  rw [answerWithin.eq_def, h]

end Equations

/--
The bus gets done with a task after finitely many steps, so requests are nested finitely deep.
-/
inductive Finishes : Bus → List Note → Task → Response → Prop where
  | settle {bus : Bus} {before : List Note} {request : Request} (quiet : bus.due request = none) :
      Finishes bus before (.answer request) (bus.settle request)
  | dispatch {bus : Bus} {before : List Note} {request : Request} {event : Event}
    {listeners : List Listener} {r : Response} (due : bus.due request = some (event, listeners))
    (delivered : Finishes bus before (.deliver event listeners) r) :
      Finishes bus before (.answer request) r
  | nobody {bus : Bus} {before : List Note} {event : Event} :
      Finishes bus before (.deliver event []) { reply := .ok .done, bus }
  | call {bus : Bus} {before known : List Note} {event : Event} {listener : Listener}
    {rest : List Listener} {first last : Response}
    (noted : known = before ++ [.heard listener.tag event])
    (called : Finishes bus known (.serve listener.tag (listener.react event known)) first)
    (others : Finishes first.bus (known ++ first.notes) (.deliver event rest) last) :
      Finishes bus before (.deliver event (listener :: rest))
        (last.after (.called listener event :: first.turns ++ [.returned]) first.log)
  | done {bus : Bus} {before : List Note} {tag : String} :
      Finishes bus before (.serve tag .done) { reply := .ok .done, bus }
  | ask {bus : Bus} {before known : List Note} {tag : String} {request : Request}
    {next : List Note → Script} {first last : Response}
    (answered : Finishes bus before (.answer request) first)
    (noted : known = before ++ first.notes ++ [.answered tag first.reply])
    (others : Finishes first.bus known (.serve tag (next known)) last) :
      Finishes bus before (.serve tag (.ask request next))
        (last.after (.asked tag request :: first.turns ++ [.answered tag first.reply]) first.log)

theorem Finishes.performWithin {bus : Bus} {before : List Note} {task : Task} {r : Response}
    (h : Finishes bus before task r) :
    ∃ enough, ∀ depth, enough ≤ depth → Bus.performWithin depth bus before task = some r := by
  induction h with
  | settle quiet => exact ⟨0, fun _ _ => answerWithin_of_not_due quiet⟩
  | dispatch due _ ih =>
    obtain ⟨enough, ih⟩ := ih
    refine ⟨enough + 1, fun depth le => ?_⟩
    obtain ⟨depth, rfl⟩ := Nat.exists_eq_add_of_le' le
    rw [Bus.performWithin, ← Nat.add_assoc, answerWithin_succ_of_due due]
    exact ih _ (Nat.le_add_left ..)
  | nobody => exact ⟨0, fun _ _ => rfl⟩
  | call noted _ _ called others =>
    subst noted
    obtain ⟨enough, called⟩ := called
    obtain ⟨enough', others⟩ := others
    -- from the greater of the two depths on, both parts get done
    refine ⟨max enough enough', fun depth le => ?_⟩
    have called := called depth (by omega)
    have others := others depth (by omega)
    simp only [Bus.performWithin] at called others ⊢
    simp only [deliver, called, others, Option.bind_eq_bind, Option.bind_some, Option.pure_def]
  | done => exact ⟨0, fun _ _ => rfl⟩
  | ask _ noted _ answered others =>
    subst noted
    obtain ⟨enough, answered⟩ := answered
    obtain ⟨enough', others⟩ := others
    refine ⟨max enough enough', fun depth le => ?_⟩
    have answered := answered depth (by omega)
    have others := others depth (by omega)
    simp only [Bus.performWithin] at answered others ⊢
    simp only [serve, answered, others, Option.bind_eq_bind, Option.bind_some, Option.pure_def]

section

variable {answer : Bus → List Note → Request → Option Response}
  (answered : ∀ bus before request r, answer bus before request = some r →
    Finishes bus before (.answer request) r)
include answered

theorem finishes_of_serve {bus : Bus} {before : List Note} {tag : String} {script : Script}
    {r : Response} (h : serve answer bus before tag script = some r) :
    Finishes bus before (.serve tag script) r := by
  induction bus, before, script using serve.induct tag generalizing r with
  | case1 =>
    cases h
    exact .done
  | case2 bus before request next ih =>
    simp only [serve, Option.bind_eq_bind, Option.bind_eq_some_iff, Option.pure_def,
      Option.some.injEq] at h
    obtain ⟨first, h, last, h', rfl⟩ := h
    exact .ask (answered _ _ _ _ h) rfl (ih first h')

theorem finishes_of_deliver {bus : Bus} {before : List Note} {event : Event}
    {listeners : List Listener} {r : Response}
    (h : deliver answer bus before event listeners = some r) :
    Finishes bus before (.deliver event listeners) r := by
  induction listeners generalizing bus before r with
  | nil =>
    cases h
    exact .nobody
  | cons listener rest ih =>
    simp only [deliver, Option.bind_eq_bind, Option.bind_eq_some_iff, Option.pure_def,
      Option.some.injEq] at h
    obtain ⟨first, h, last, h', rfl⟩ := h
    exact .call rfl (finishes_of_serve answered h) (ih h')

end

theorem finishes_of_answerWithin {depth : Nat} (bus : Bus) (before : List Note)
    (request : Request) (r : Response) (h : answerWithin depth bus before request = some r) :
    Finishes bus before (.answer request) r := by
  -- what holds of a depth is what the calls made at the next one need of their answers
  induction depth generalizing bus before request r with
  | zero =>
    cases due : bus.due request with
    | none =>
      rw [answerWithin_of_not_due due] at h
      cases h
      exact .settle due
    | some _ =>
      rw [answerWithin_zero_of_due due] at h
      cases h
  | succ depth ih =>
    cases due : bus.due request with
    | none =>
      rw [answerWithin_of_not_due due] at h
      cases h
      exact .settle due
    | some due' =>
      obtain ⟨event, listeners⟩ := due'
      rw [answerWithin_succ_of_due due] at h
      exact .dispatch due (finishes_of_deliver ih h)

theorem finishes_of_performWithin {depth : Nat} {bus : Bus} {before : List Note} {task : Task}
    {r : Response} (h : performWithin depth bus before task = some r) :
    Finishes bus before task r := by
  cases task with
  | answer request => exact finishes_of_answerWithin _ _ _ _ h
  | deliver event listeners => exact finishes_of_deliver finishes_of_answerWithin h
  | serve tag script => exact finishes_of_serve finishes_of_answerWithin h

theorem finishes_iff {bus : Bus} {before : List Note} {task : Task} {r : Response} :
    Finishes bus before task r ↔
      ∃ enough, ∀ depth, enough ≤ depth → performWithin depth bus before task = some r := by
  constructor
  . exact Finishes.performWithin
  . intro ⟨enough, h⟩
    exact finishes_of_performWithin (h enough enough.le_refl)

def subscriptions (kind : EventKind) (turns : List Turn) : List Listener :=
  turns.flatMap fun
    | .asked _ (.subscribe k tag react) => if k = kind then [⟨tag, react⟩] else []
    | .asked _ (.subscribeAll tag react) => [⟨tag, react⟩]
    | _ => []

/--
The bus after these turns: whoever subscribed to a declared kind is one of its listeners, behind
those who did so before.
-/
def following (bus : Bus) (turns : List Turn) : Bus :=
  { bus with
    channels := fun kind => (bus.channels kind).map (· ++ subscriptions kind turns) }

@[simp]
theorem following_nil (bus : Bus) : bus.following [] = bus := by
  simp [following, subscriptions]

theorem following_append (bus : Bus) (first second : List Turn) :
    bus.following (first ++ second) = (bus.following first).following second := by
  simp [following, subscriptions, Function.comp_def]

@[simp]
theorem isSealed_following (bus : Bus) (turns : List Turn) :
    (bus.following turns).isSealed = bus.isSealed := rfl

theorem following_of_silent {turns : List Turn} (silent : ∀ kind, subscriptions kind turns = [])
    (bus : Bus) : bus.following turns = bus := by
  simp [following, silent]

theorem following_subscribe {bus : Bus} (sealed : bus.isSealed) (tag : String) (kind : EventKind)
    (listener : Listener) :
    bus.following [.asked tag (.subscribe kind listener.tag listener.react)] =
      (Response.ofExcept bus (bus.listen kind listener)).bus := by
  have asked : ∀ k, subscriptions k [.asked tag (.subscribe kind listener.tag listener.react)] =
      if kind = k then [listener] else [] := by
    intro k
    simp [subscriptions]
  simp only [following, asked, listen, sealed, Bool.not_true, Bool.false_eq_true, ↓reduceIte]
  cases declared : bus.channels kind with
  | none =>
    have unchanged : (fun k => (bus.channels k).map (· ++ if kind = k then [listener] else [])) =
        bus.channels := by
      funext k
      by_cases same : kind = k
      . simp [← same, declared]
      . simp [same]
    rw [unchanged, ← sealed]
    rfl
  | some listeners =>
    have added : (fun k => (bus.channels k).map (· ++ if kind = k then [listener] else [])) =
        fun k => if k = kind then some (listeners ++ [listener]) else bus.channels k := by
      funext k
      by_cases same : kind = k
      . simp [← same, declared]
      . simp [same, Ne.symm same]
    rw [added]
    rfl

theorem following_asked {bus : Bus} (sealed : bus.isSealed) (tag : String) (request : Request) :
    bus.following [.asked tag request] = (bus.settle request).bus := by
  cases request with
  | register kind =>
    rw [settle, register, if_pos sealed]
    exact following_of_silent (fun _ => rfl) bus
  | sealOff =>
    rw [settle, sealOff, ← sealed]
    exact following_of_silent (fun _ => rfl) bus
  | isSealed => exact following_of_silent (fun _ => rfl) bus
  | hasChannel kind => exact following_of_silent (fun _ => rfl) bus
  | subscribe kind name react => exact following_subscribe sealed tag kind ⟨name, react⟩
  | subscribeAll name react =>
    rw [settle, listenAll]
    simp [sealed, following, subscriptions, Response.ofExcept]
  | dispatch event => exact following_of_silent (fun _ => rfl) bus
  | publish event => exact following_of_silent (fun _ => rfl) bus
  | kindOf event => exact following_of_silent (fun _ => rfl) bus
  | summary => exact following_of_silent (fun _ => rfl) bus

def callees (bus : Bus) : Request → List (Listener × Event)
  | .dispatch event => ((bus.channels event.kind).getD []).map (·, event)
  | .publish event => ((bus.channels event.kind).getD []).map (·, event)
  | _ => []

mutual

inductive Requests : List Turn → Prop where
  | nil : Requests []
  | cons {tag : String} {request : Request} {callees : List (Listener × Event)} {inner : List Turn}
    {reply : Except Error Reply} {rest : List Turn} (calls : Calls callees inner)
    (others : Requests rest) :
      Requests (.asked tag request :: inner ++ .answered tag reply :: rest)

/--
These listeners are called with these events one after another. Each makes its requests and returns
before the next is called.
-/
inductive Calls : List (Listener × Event) → List Turn → Prop where
  | nil : Calls [] []
  | cons {listener : Listener} {event : Event} {callees : List (Listener × Event)}
    {inner rest : List Turn} (requests : Requests inner) (others : Calls callees rest) :
      Calls ((listener, event) :: callees) (.called listener event :: inner ++ .returned :: rest)

end

/--
The request is answered, and until then those are called that are subscribed when it is made.
-/
def Answers (bus : Bus) (tag : String) (request : Request) (rest : List Turn) : Prop :=
  ∃ inner reply later, rest = inner ++ .answered tag reply :: later ∧
    Calls (bus.callees request) inner

theorem Answers.append {bus : Bus} {tag : String} {request : Request} {rest : List Turn}
    (h : bus.Answers tag request rest) (more : List Turn) :
    bus.Answers tag request (rest ++ more) := by
  obtain ⟨inner, reply, later, rfl, calls⟩ := h
  exact ⟨inner, reply, later ++ more, by simp, calls⟩

/--
Each request is answered in this way by the bus that the turns before it have left.
-/
def Exact (bus : Bus) : List Turn → Prop
  | [] => True
  | .asked tag request :: rest =>
    bus.Answers tag request rest ∧ (bus.following [.asked tag request]).Exact rest
  | .called .. :: rest => bus.Exact rest
  | .returned :: rest => bus.Exact rest
  | .answered .. :: rest => bus.Exact rest

theorem following_cons (bus : Bus) (turn : Turn) (rest : List Turn) :
    bus.following (turn :: rest) = (bus.following [turn]).following rest :=
  following_append bus [turn] rest

@[simp]
theorem following_called_cons (bus : Bus) (listener : Listener) (event : Event)
    (rest : List Turn) : bus.following (.called listener event :: rest) = bus.following rest := rfl

@[simp]
theorem following_returned_cons (bus : Bus) (rest : List Turn) :
    bus.following (.returned :: rest) = bus.following rest := rfl

@[simp]
theorem following_answered_cons (bus : Bus) (tag : String) (reply : Except Error Reply)
    (rest : List Turn) : bus.following (.answered tag reply :: rest) = bus.following rest := rfl

theorem Exact.append {bus : Bus} {first second : List Turn} (h : bus.Exact first)
    (h' : (bus.following first).Exact second) : bus.Exact (first ++ second) := by
  induction first generalizing bus with
  | nil => simpa using h'
  | cons turn first ih =>
    cases turn with
    | asked tag request =>
      rw [following_cons] at h'
      exact ⟨h.1.append second, ih h.2 h'⟩
    | called listener event => exact @ih bus h h'
    | returned => exact @ih bus h h'
    | answered tag reply => exact @ih bus h h'

theorem Exact.called {bus : Bus} {inner : List Turn} (h : bus.Exact inner) (listener : Listener)
    (event : Event) : bus.Exact (.called listener event :: inner ++ [.returned]) := by
  have begun : bus.Exact (.called listener event :: inner) := h
  exact begun.append trivial

theorem Exact.asked {bus : Bus} {tag : String} {request : Request} {inner : List Turn}
    (calls : Calls (bus.callees request) inner)
    (h : (bus.following [.asked tag request]).Exact inner) (reply : Except Error Reply) :
    bus.Exact (.asked tag request :: inner ++ [.answered tag reply]) :=
  ⟨⟨inner, reply, [], rfl, calls⟩, h.append trivial⟩

theorem Exact.answers {bus : Bus} {past rest : List Turn} {tag : String} {request : Request}
    (h : bus.Exact (past ++ .asked tag request :: rest)) :
    (bus.following past).Answers tag request rest := by
  induction past generalizing bus with
  | nil =>
    rw [following_nil]
    exact h.1
  | cons turn past ih =>
    cases turn with
    | asked _ _ =>
      rw [following_cons]
      exact ih h.2
    | called _ _ => exact @ih bus h
    | returned => exact @ih bus h
    | answered _ _ => exact @ih bus h

def Task.Shape (bus : Bus) (turns : List Turn) : Task → Prop
  | .answer request => Calls (bus.callees request) turns
  | .deliver event listeners => Calls (listeners.map (·, event)) turns
  | .serve _ _ => Requests turns

/--
The bus when the first listener is called: a request has taken its effect.
-/
def Task.entered (bus : Bus) : Task → Bus
  | .answer request => (bus.settle request).bus
  | .deliver _ _ => bus
  | .serve _ _ => bus

structure Sound (bus : Bus) (task : Task) (r : Response) : Prop where
  bus_eq : r.bus = (task.entered bus).following r.turns
  exact : (task.entered bus).Exact r.turns
  shape : task.Shape bus r.turns

theorem turns_settle (bus : Bus) (request : Request) : (bus.settle request).turns = [] := by
  have ofExcept : ∀ changed, (Response.ofExcept bus changed).turns = [] := by
    intro changed
    cases changed <;> rfl
  cases request <;> first | rfl | exact ofExcept _

theorem callees_eq (bus : Bus) (request : Request) :
    bus.callees request =
      ((bus.due request).map fun (event, listeners) => listeners.map (·, event)).getD [] := by
  have called : ∀ event : Event, ((bus.channels event.kind).getD []).map (·, event) =
      (((bus.channels event.kind).bind fun listeners => some (event, listeners)).map
        fun (event, listeners) => listeners.map (·, event)).getD [] := by
    intro event
    cases bus.channels event.kind <;> rfl
  cases request <;> first | rfl | exact called _

theorem settle_of_due {bus : Bus} {request : Request} {event : Event}
    {listeners : List Listener} (h : bus.due request = some (event, listeners)) :
    (bus.settle request).bus = bus := by
  cases request <;> first | rfl | simp [due, Request.event?] at h

theorem Finishes.sound {bus : Bus} {before : List Note} {task : Task} {r : Response}
    (sealed : bus.isSealed) (h : Finishes bus before task r) : Sound bus task r := by
  -- a call and a request both hand on the bus that their turns so far have led to
  induction h with
  | @settle bus before request quiet =>
    refine ⟨?_, ?_, ?_⟩
    . rw [turns_settle, following_nil]
      rfl
    . rw [turns_settle]
      trivial
    . rw [turns_settle, Task.Shape, callees_eq, quiet]
      exact .nil
  | dispatch due _ ih =>
    have delivered := ih sealed
    refine ⟨?_, ?_, ?_⟩
    . rw [Task.entered, settle_of_due due]
      exact delivered.bus_eq
    . rw [Task.entered, settle_of_due due]
      exact delivered.exact
    . rw [Task.Shape, callees_eq, due]
      exact delivered.shape
  | nobody => exact ⟨(following_nil _).symm, trivial, .nil⟩
  | @call bus before known event listener rest first last noted _ _ called others =>
    have inner := called sealed
    have changed : first.bus =
        bus.following (.called listener event :: first.turns ++ [.returned]) := by
      rw [following_append, following_called_cons, following_returned_cons, following_nil]
      exact inner.bus_eq
    have later := others (by rwa [changed, isSealed_following])
    refine ⟨?_, ?_, ?_⟩
    . rw [Response.after, later.bus_eq, changed]
      exact (following_append _ _ _).symm
    . refine Exact.append (inner.exact.called listener event) ?_
      rw [Task.entered, ← changed]
      exact later.exact
    . simpa [Task.Shape, Response.after] using Calls.cons inner.shape later.shape
  | done => exact ⟨(following_nil _).symm, trivial, .nil⟩
  | @ask bus before known tag request next first last _ noted _ answered others =>
    have inner := answered sealed
    have entered := following_asked sealed tag request
    have changed : first.bus =
        bus.following (.asked tag request :: first.turns ++ [.answered tag first.reply]) := by
      rw [following_append, following_cons bus, entered, following_answered_cons, following_nil]
      exact inner.bus_eq
    have later := others (by rwa [changed, isSealed_following])
    refine ⟨?_, ?_, ?_⟩
    . rw [Response.after, later.bus_eq, changed]
      exact (following_append _ _ _).symm
    . refine Exact.append (Exact.asked inner.shape ?_ first.reply) ?_
      . rw [entered]
        exact inner.exact
      . rw [Task.entered, ← changed]
        exact later.exact
    . simpa [Task.Shape, Response.after] using Requests.cons inner.shape later.shape

theorem delivery_is_exact {bus : Bus} (sealed : bus.isSealed) (before : List Note) (tag : String)
    (script : Script) :
    (∀ r, Finishes bus before (.serve tag script) r ↔
      ∃ enough, ∀ depth, enough ≤ depth →
        serve (answerWithin depth) bus before tag script = some r) ∧
      ∀ depth r, serve (answerWithin depth) bus before tag script = some r →
        Requests r.turns ∧
        (∀ past asker request rest, r.turns = past ++ .asked asker request :: rest →
          ∃ inner reply later, rest = inner ++ .answered asker reply :: later ∧
            Calls ((bus.following past).callees request) inner) ∧
        r.bus = bus.following r.turns := by
  constructor
  . intro r
    exact finishes_iff
  . intro depth r served
    have finishes : Finishes bus before (.serve tag script) r := finishes_of_performWithin served
    have sound := finishes.sound sealed
    refine ⟨sound.shape, ?_, sound.bus_eq⟩
    intro past asker request rest split
    have exact := sound.exact
    rw [split] at exact
    exact exact.answers

def hearers (notes : List Note) : List String :=
  notes.filterMap fun
    | .heard tag _ => some tag
    | .answered _ _ => none

def eager (event : Event) (known : List Note) : Script :=
  match hearers known with
  | [_] =>
    .ask (.subscribe .reset "late" fun _ _ => .done) fun _ => .ask (.dispatch event) fun _ => .done
  | _ => .done

def rush : Script :=
  .ask (.subscribe .reset "eager" eager) fun _ =>
    .ask (.subscribe .reset "calm" fun _ _ => .done) fun _ =>
      .ask (.publish .reset) fun _ => .done

theorem delivery_is_exact_of_rush :
    ∃ r, serve (answerWithin 2) standard [] "host" rush = some r ∧
      hearers r.notes = ["eager", "eager", "calm", "late", "calm"] ∧
      Requests r.turns ∧
      (∀ past asker request rest, r.turns = past ++ .asked asker request :: rest →
        ∃ inner reply later, rest = inner ++ .answered asker reply :: later ∧
          Calls ((standard.following past).callees request) inner) ∧
      r.bus = standard.following r.turns := by
  have served : ∃ r, serve (answerWithin 2) standard [] "host" rush = some r ∧
      hearers r.notes = ["eager", "eager", "calm", "late", "calm"] := ⟨_, rfl, rfl⟩
  obtain ⟨r, served, heard⟩ := served
  have isSealed : standard.isSealed := rfl
  exact ⟨r, served, heard, (delivery_is_exact isSealed [] "host" rush).2 2 r served⟩

end Bus
end ByteMachine
