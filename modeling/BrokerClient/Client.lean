import BrokerClient.Supervisor

/-!
# Clients

Supervisors that share one connection, with the events that they made known and the records that
they wrote, oldest first, and the cancellations that have been called.
-/
namespace BrokerClient

/-- A cancellation that callers share by its name. -/
structure Token where
  name : String
deriving DecidableEq

structure Client where
  connection : Connection Listener := {}
  supervisors : List Supervisor := []
  cancelled : List Token := []
  events : List ChannelEvent := []
  log : List Log.Record := []
deriving Inhabited

namespace Client

def record (c : Client) (r : Log.Record) : Client :=
  { c with log := c.log ++ [r] }

/-! ## Channels -/

def isOpen (c : Client) (id : ChannelId) : Bool :=
  (c.connection.channel? id).any Channel.isOpen

/-- Changes a channel and makes known what its listeners are told. -/
def onChannel (c : Client) (id : ChannelId)
    (f : Channel Listener → Channel Listener × Deliveries Listener) : Client :=
  let (connection, ds) := c.connection.deliver id f
  { c with connection, events := c.events ++ ds.filterMap (fun (l, n) => l.event? n) }

def raise (c : Client) (id : ChannelId) (s : Signal) : Client :=
  c.onChannel id (·.raise s)

def close (c : Client) (id : ChannelId) : Client :=
  c.onChannel id Channel.close

def confirmSelect (c : Client) (id : ChannelId) : Except TransportError Client :=
  match c.connection.channel? id with
  | none => .error (.interrupted none)
  | some ch => do
    let ch ← ch.confirmSelect
    return { c with connection := c.connection.put ch }

def failNext (c : Client) (e : TransportError) : Client :=
  { c with connection := c.connection.failNext e }

def openChannel (c : Client) : Client × Except TransportError ChannelId :=
  let (connection, r) := c.connection.openChannel
  let c := { c with connection }
  match r with
  | .ok id => (c.record (Connection.openLog id), .ok id)
  | .error e => (c, .error e)

/-! ## Supervisors -/

/-- Adds a supervisor; its number is the number of those before it. -/
def addSupervisor (c : Client) (o : Options) : Client × SupervisorId :=
  ({ c with supervisors := c.supervisors ++ [{ options := o }] }, ⟨c.supervisors.length⟩)

def supervisor (c : Client) (s : SupervisorId) : Supervisor :=
  c.supervisors.getD s.number {}

def modify (c : Client) (s : SupervisorId) (f : Supervisor → Supervisor) : Client :=
  { c with supervisors := c.supervisors.modify s.number f }

def isDisposed (c : Client) (s : SupervisorId) : Bool :=
  (c.supervisor s).disposed

/-- Lets go of the held channel, if there is one, closes it and detaches the listeners. -/
def closeHeld (c : Client) (s : SupervisorId) : Client :=
  match (c.supervisor s).held with
  | none => c
  | some h =>
    let c := (c.modify s ({ · with held := none })).close h.channel
    let c := c.onChannel h.channel fun ch =>
      ((ch.removeListener h.listener).removeRecoveryListener h.recoveryListener, [])
    c.record ⟨.debug, "persistent channel closed", [("channel", h.channel.text)]⟩

/-- Ends a supervisor for good; a second time nothing happens. -/
def dispose (c : Client) (s : SupervisorId) : Client :=
  if c.isDisposed s then c
  else
    let c := (c.modify s ({ · with disposed := true })).closeHeld s
    c.record ⟨.info, "persistent channel disposed", []⟩

/-- Listens to a channel and holds it. -/
def hold (c : Client) (s : SupervisorId) (id : ChannelId) : Client :=
  let confirms := (c.supervisor s).options.confirms
  let forwarder : Listener := .forwarder ⟨s, id, confirms⟩
  let (connection, ids) := c.connection.modify id fun ch =>
    let (ch, recoveryListener) := ch.addRecoveryListener forwarder
    let (ch, listener) := ch.addListener forwarder
    (ch, (listener, recoveryListener))
  let held := ids.map fun (listener, recoveryListener) => ⟨id, listener, recoveryListener⟩
  let c := { c with connection }.modify s ({ · with held, everHeld := true })
  c.record ⟨.debug, "persistent channel created",
    [("channel", id.text), ("publisher_confirms", if confirms then "true" else "false")]⟩

/-- Lets a new channel be held. It must be able to recover, and to confirm if that is asked for; it
is closed otherwise. -/
def attach (c : Client) (s : SupervisorId) (id : ChannelId) :
    Client × Except TransportError Unit :=
  if !(c.connection.channel? id).any Channel.recoverable then
    (c.close id, .error (.notSupported ("channel " ++ id.text ++ " does not support auto-recovery")))
  else
    match if (c.supervisor s).options.confirms then c.confirmSelect id else .ok c with
    | .error e => (c.close id, .error e)
    | .ok c => (c.hold s id, .ok ())

def cancel (c : Client) (t : Token) : Client :=
  if t ∈ c.cancelled then c else { c with cancelled := t :: c.cancelled }

end Client

end BrokerClient
