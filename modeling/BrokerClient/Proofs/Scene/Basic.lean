import BrokerClient.Client.Invocation

/-!
# Scenes

A scene is a client together with the invocations that were begun on it. What happens in it is a row
of events: a deed from outside, the beginning of an invocation, or a move that takes an invocation
from one wait to the next. Events come in every order that the state allows; a deed may fall between
two turns of an invocation or into one, as when an action disposes of its own supervisor.

The trace of a scene keeps the deeds and what the invocations came to, oldest first.
-/
namespace BrokerClient

/-! ## Participants -/

/-- Where an invocation is between two events. -/
inductive Phase (α : Type) where
  /-- It waits for its turn. -/
  | waiting
  /-- It has its turn: its wait was not given up, and what it waits for may come. -/
  | turning
  | ended (o : Outcome α)

structure Participant (α : Type) where
  invocation : Invocation
  phase : Phase α

/-- How an attempt came out: the channel was not opened, or not attached, or the action answered. -/
inductive Attempt (α : Type) where
  | unopened (e : TransportError)
  | unattached (e : TransportError)
  | acted (r : Except TransportError α)

namespace Attempt

variable {α : Type}

def result : Attempt α → Except TransportError α
  | .unopened e => .error e
  | .unattached e => .error e
  | .acted r => r

def isAction : Attempt α → Bool
  | .acted _ => true
  | _ => false

/-- The attempt failed, and another one follows by the verdict on its failure. -/
def isSuppressed (k : Classifier) (a : Attempt α) : Bool :=
  match a.result with
  | .ok _ => false
  | .error e => !(k.classify e).rethrows

end Attempt

/-! ## Events -/

/-- What is done from outside, by an action or by a factory of channels. -/
inductive Deed where
  | supervise (o : Options)
  | dispose (s : SupervisorId)
  | cancel (t : Token)
  | failNext (e : TransportError)
  | openChannel
  | confirmSelect (ch : ChannelId)
  | signal (ch : ChannelId) (s : Signal)
  | close (ch : ChannelId)
  | listen (ch : ChannelId)
  | unlisten (ch : ChannelId) (l : ListenerId)
  | listenRecovery (ch : ChannelId)
  | unlistenRecovery (ch : ChannelId) (l : ListenerId)

inductive Move (α : Type) where
  /-- Goes on with the lock, or leaves its queue. -/
  | enter
  /-- Begins a turn: the wait is given up, or what it waits for may come. -/
  | look
  /-- The connection opens a channel, or fails to, and answers at once. -/
  | opens
  | answer (a : Client.Answer α)
  /-- Ends a turn in which no answer came. -/
  | rest

inductive Event (α : Type) where
  | deed (d : Deed)
  | begin (i : InvocationId) (s : SupervisorId) (t : Option Token)
  | move (i : InvocationId) (m : Move α)

/-- What is kept of an event. -/
inductive Mark (α : Type) where
  | deed (d : Deed)
  | began (i : InvocationId) (s : SupervisorId) (t : Option Token)
  /-- The attempt needs a new channel. -/
  | opening (i : InvocationId)
  | called (i : InvocationId) (ch : ChannelId)
  | attempted (i : InvocationId) (a : Attempt α)
  | ended (i : InvocationId) (o : Outcome α)

namespace Mark

variable {α : Type}

def attempt? (i : InvocationId) : Mark α → Option (Attempt α)
  | .attempted j a => if j = i then some a else none
  | _ => none

def call? (i : InvocationId) : Mark α → Option ChannelId
  | .called j ch => if j = i then some ch else none
  | _ => none

def isOf (i : InvocationId) : Mark α → Bool
  | .deed _ => false
  | .began j _ _ | .opening j | .called j _ | .attempted j _ | .ended j _ => j = i

end Mark

/-! ## Deeds -/

namespace Client

def knows (c : Client) (ch : ChannelId) : Bool :=
  (c.connection.channel? ch).isSome

/-- Whether the handle is that of a supervisor in a list of listeners. -/
def isForwarders (l : ListenerId) (ls : List (ListenerId × Listener)) : Bool :=
  ls.any (fun p => p.1 = l && p.2 ≠ .visitor)

/-- Does a deed. It needs the supervisor or the channel that it names, and visitors take down only
their own listeners. -/
def perform? (c : Client) : Deed → Option Client
  | .supervise o => some (c.addSupervisor o).1
  | .dispose s => if s.number < c.supervisors.length then some (c.dispose s) else none
  | .cancel t => some (c.cancel t)
  | .failNext e => some (c.failNext e)
  | .openChannel => some c.openChannel.1
  | .confirmSelect ch => (c.confirmSelect ch).toOption
  | .signal ch s => if c.knows ch then some (c.raise ch s) else none
  | .close ch => if c.knows ch then some (c.close ch) else none
  | .listen ch => some (c.onChannel ch fun ch => ((ch.addListener .visitor).1, []))
  | .unlisten ch l =>
    if (c.connection.channel? ch).any (fun ch => isForwarders l ch.listeners) then none
    else some (c.onChannel ch fun ch => (ch.removeListener l, []))
  | .listenRecovery ch => some (c.onChannel ch fun ch => ((ch.addRecoveryListener .visitor).1, []))
  | .unlistenRecovery ch l =>
    if (c.connection.channel? ch).any (fun ch => isForwarders l ch.recoveryListeners) then none
    else some (c.onChannel ch fun ch => (ch.removeRecoveryListener l, []))

/-! ## Moves -/

variable {α : Type}

/-- An invocation after a step: it waits again or has ended. -/
def after (v : Invocation) : Client × Progress α → Client × Participant α
  | (c, .waits v) => (c, ⟨v, .waiting⟩)
  | (c, .ended o) => (c, ⟨v, .ended o⟩)

/-- Begins an invocation and lets it take the lock or a place in its queue. -/
def begin (c : Client) (i : InvocationId) (s : SupervisorId) (t : Option Token) :
    Client × Participant α :=
  let v : Invocation := { id := i, supervisor := s, token := t, backoff := (c.supervisor s).options.backoff }
  match c.invoke (α := α) i s t with
  | .ended o => (c, ⟨v, .ended o⟩)
  | .waits v =>
    match c.interruption? v with
    | some o => after v (c.finish v o)
    | none => (c.modify s (fun s => { s with lock := s.lock.join i }), ⟨v, .waiting⟩)

def Answer.isFor : Answer α → Stage → Bool
  | .opened _, .opening => true
  | .acted _, .acting _ => true
  | .elapsed, .delaying _ => true
  | _, _ => false

/-- Makes a move, if it is one that the invocation can make now. -/
def move? (c : Client) (p : Participant α) (m : Move α) : Option (Client × Participant α) :=
  let v := p.invocation
  match p.phase, m with
  | .waiting, .enter =>
    if v.stage = .queued ∧
        ((c.interruption? (α := α) v).isSome ∨ (c.supervisorOf v).lock.owner = some v.id)
    then some (after v (c.attempt v)) else none
  | .waiting, .look =>
    if v.stage = .queued then none
    else
      match c.interruption? v with
      | some o => some (after v (c.finish v o))
      | none => some (c, ⟨v, .turning⟩)
  | .turning, .opens =>
    if v.stage = .opening then some (after v (c.openChannel.1.opened v c.openChannel.2)) else none
  | .turning, .answer a => if a.isFor v.stage then some (after v (c.answer v a)) else none
  | .turning, .rest => some (c, ⟨v, .waiting⟩)
  | _, _ => none

/-- How an attempt comes out when its channel is opened or not, unless it goes on with its action. -/
def opening? (c : Client) (v : Invocation) : Except TransportError ChannelId → Option (Attempt α)
  | .error e => some (.unopened e)
  | .ok ch =>
    match (c.attach v.supervisor ch).2 with
    | .error e => some (.unattached e)
    | .ok () => none

/-- The attempt that a move brings to its end. -/
def attempted? (c : Client) (v : Invocation) : Move α → Option (Attempt α)
  | .opens => c.openChannel.1.opening? v c.openChannel.2
  | .answer (.opened r) => c.opening? v r
  | .answer (.acted r) => some (.acted r)
  | _ => none

end Client

namespace Participant

variable {α : Type}

/-- What an invocation came to by a step. -/
def reached (p : Participant α) : List (Mark α) :=
  match p.phase, p.invocation.stage with
  | .ended o, _ => [.ended p.invocation.id o]
  | .waiting, .opening => [.opening p.invocation.id]
  | .waiting, .acting ch => [.called p.invocation.id ch]
  | _, _ => []

end Participant

/-! ## Scenes -/

structure Scene (α : Type) where
  client : Client := {}
  /-- Channels are opened by the connection itself, at once. Otherwise a factory around it answers
  when it likes, and may fail after it has opened a channel. -/
  direct : Bool := true
  participants : InvocationId → Option (Participant α) := fun _ => none
  trace : List (Mark α) := []

namespace Scene

variable {α : Type}

def start (recoverable direct : Bool) : Scene α :=
  { client := { connection := { recoverable } }, direct }

/-- Openings are in the hands of a factory around the connection. -/
def isForeign : Event α → Bool
  | .deed .openChannel => true
  | .move _ (.answer (.opened _)) => true
  | _ => false

/-- What remains of a move: nothing of a turn without an answer. -/
def marks (c : Client) (v : Invocation) (m : Move α) (q : Participant α) : List (Mark α) :=
  match m with
  | .rest => []
  | _ => ((c.attempted? v m).map (Mark.attempted v.id)).toList ++ q.reached

def put (w : Scene α) (c : Client) (i : InvocationId) (p : Participant α) (ms : List (Mark α)) :
    Scene α :=
  { w with
    client := c
    participants := fun j => if j = i then some p else w.participants j
    trace := w.trace ++ ms }

/-- The scene after an event, if the event is possible. -/
def step (w : Scene α) (e : Event α) : Option (Scene α) :=
  if w.direct && isForeign e then none
  else
    match e with
    | .deed d =>
      (w.client.perform? d).map fun c => { w with client := c, trace := w.trace ++ [.deed d] }
    | .begin i s t =>
      if s.number < w.client.supervisors.length ∧ (w.participants i).isNone then
        let (c, p) := w.client.begin i s t
        some (w.put c i p (.began i s t :: p.reached))
      else none
    | .move i m => do
      let p ← w.participants i
      let (c, q) ← w.client.move? p m
      return w.put c i q (marks w.client p.invocation m q)

def run (w : Scene α) : List (Event α) → Option (Scene α)
  | [] => some w
  | e :: es => (w.step e).bind (fun w => w.run es)

inductive Reachable : Scene α → Prop where
  | start (recoverable direct : Bool) : Reachable (start recoverable direct)
  | step {w w' : Scene α} {e : Event α} : Reachable w → w.step e = some w' → Reachable w'

def attempts (w : Scene α) (i : InvocationId) : List (Attempt α) :=
  w.trace.filterMap (Mark.attempt? i)

def calls (w : Scene α) (i : InvocationId) : List ChannelId :=
  w.trace.filterMap (Mark.call? i)

end Scene

end BrokerClient
