import BrokerClient.Client

/-!
# Invocations

An invocation waits for the lock of its supervisor, then makes attempts until its action succeeds or
fails for good. An attempt needs an open channel and opens one if none is held; a failed attempt that
is tried again waits for a delay that doubles.

Each function here takes an invocation from one wait to the next, or to its outcome. What it waits
for is answered from outside: the opening of a channel, the action, the passing of the delay. Before
an answer is taken, `interruption?` says whether the wait is given up: when the supervisor has been
disposed, or else when the caller's cancellation has been called.
-/
namespace BrokerClient

/-- What an invocation is waiting for. -/
inductive Stage where
  | queued
  | opening
  | acting (channel : ChannelId)
  | delaying (d : Duration)
deriving DecidableEq

structure Invocation where
  id : InvocationId
  supervisor : SupervisorId
  token : Option Token
  backoff : Backoff
  attempt : UInt32 := 0
  stage : Stage := .queued
deriving DecidableEq

inductive Outcome (α : Type) where
  | ok (a : α)
  | disposed
  | cancelled
  | aborted
  | failed (e : TransportError)

/-- What an outcome without a value tells the caller. -/
def Outcome.message? {α : Type} : Outcome α → Option String
  | .ok _ => none
  | .disposed => some "persistent channel is disposed"
  | .cancelled => some "invocation cancelled by caller"
  | .aborted => some "invocation aborted: persistent channel disposed"
  | .failed e => some e.message

inductive Progress (α : Type) where
  | waits (i : Invocation)
  | ended (o : Outcome α)

namespace Client

variable {α : Type}

def supervisorOf (c : Client) (i : Invocation) : Supervisor :=
  c.supervisor i.supervisor

def finish (c : Client) (i : Invocation) (o : Outcome α) : Client × Progress α :=
  (c.modify i.supervisor (fun s => { s with lock := s.lock.leave i.id }), .ended o)

def invoke (c : Client) (id : InvocationId) (s : SupervisorId) (token : Option Token) :
    Progress α :=
  if c.isDisposed s then .ended .disposed
  else .waits { id, supervisor := s, token, backoff := (c.supervisor s).options.backoff }

/-- Why a wait is given up: disposal goes before the caller's cancellation. -/
def interruption? (c : Client) (i : Invocation) : Option (Outcome α) :=
  if c.isDisposed i.supervisor then some .aborted
  else if i.token.any (· ∈ c.cancelled) then some .cancelled
  else none

/-- Begins an attempt: on the held channel if that is open, on a new one otherwise. -/
def attempt (c : Client) (i : Invocation) : Client × Progress α :=
  match c.interruption? i with
  | some o => c.finish i o
  | none =>
    let i := { i with attempt := i.attempt + 1 }
    match (c.supervisorOf i).channel? with
    | none => (c, .waits { i with stage := .opening })
    | some ch =>
      if c.isOpen ch then (c, .waits { i with stage := .acting ch })
      else
        let c := c.record ⟨.debug, "held channel is closed, discarding", [("channel", ch.text)]⟩
        (c.closeHeld i.supervisor, .waits { i with stage := .opening })

/-- An attempt has failed: the channel is discarded, the failure goes to the caller, or another
attempt follows, as the verdict says. -/
def fail (c : Client) (i : Invocation) (e : TransportError) : Client × Progress α :=
  let verdict := (c.supervisorOf i).options.classifier.classify e
  let c := if verdict.closes then c.closeHeld i.supervisor else c
  let fields := [("attempt", toString i.attempt.toNat), ("error", e.message),
    ("verdict", verdict.name)]
  if verdict.rethrows then
    (c.record ⟨.debug, "channel action failed", fields⟩).finish i (.failed e)
  else
    let (delay, backoff) := i.backoff.step
    (c.record ⟨.warn, "channel action failed, retrying", fields ++ [("delay", delay.text)]⟩,
      .waits { i with backoff, stage := .delaying delay })

/-- Takes the lock or a place in its queue; the owner begins its first attempt. -/
def enter (c : Client) (i : Invocation) : Client × Progress α :=
  let c := c.modify i.supervisor (fun s => { s with lock := s.lock.join i.id })
  if (c.supervisorOf i).lock.owner = some i.id then c.attempt i else (c, .waits i)

/-- A channel has been opened or not. A disposal in the meantime takes the new channel too. -/
def opened (c : Client) (i : Invocation) : Except TransportError ChannelId → Client × Progress α
  | .error e => c.fail i e
  | .ok ch =>
    match c.attach i.supervisor ch with
    | (c, .error e) => c.fail i e
    | (c, .ok ()) =>
      if c.isDisposed i.supervisor then (c.closeHeld i.supervisor).finish i .aborted
      else (c, .waits { i with stage := .acting ch })

def acted (c : Client) (i : Invocation) : Except TransportError α → Client × Progress α
  | .ok a => c.finish i (.ok a)
  | .error e => c.fail i e

inductive Answer (α : Type) where
  | opened (r : Except TransportError ChannelId)
  | acted (r : Except TransportError α)
  | elapsed

/-- Goes on with an answer; one that the invocation does not wait for changes nothing. -/
def answer (c : Client) (i : Invocation) (a : Answer α) : Client × Progress α :=
  match i.stage, a with
  | .opening, .opened r => c.opened i r
  | .acting _, .acted r => c.acted i r
  | .delaying _, .elapsed => c.attempt i
  | _, _ => (c, .waits i)

end Client

end BrokerClient
