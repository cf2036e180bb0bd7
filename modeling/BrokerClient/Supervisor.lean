import BrokerClient.EventBus
import BrokerClient.Supervisor.Lock
import BrokerClient.Supervisor.Options
import BrokerClient.Transport.Connection

/-!
# Supervisors of channels

A supervisor holds at most one channel, opened when it is needed, and runs the actions of its
callers on it one at a time. It listens to the channel that it holds and makes known what happens
there.
-/
namespace BrokerClient

structure SupervisorId where
  number : Nat
deriving DecidableEq, Inhabited

/-- The listener of a supervisor on its channel. -/
structure Forwarder where
  owner : SupervisorId
  channel : ChannelId
  confirms : Bool
deriving DecidableEq

/-- What is made known of a notice. Confirmations are only of interest if they were asked for. -/
def Forwarder.event? (f : Forwarder) : Notice → Option ChannelEvent
  | .ack tag multiple =>
    if f.confirms then some ⟨f.channel, .confirmation tag multiple false⟩ else none
  | .nack tag multiple =>
    if f.confirms then some ⟨f.channel, .confirmation tag multiple true⟩ else none
  | .returned r =>
    some ⟨f.channel, .returned r.body (.ofBasic r.properties) r.exchange r.routingKey r.replyText⟩
  | .shutdown reason => some ⟨f.channel, .shutdown reason⟩
  | .recovered => some ⟨f.channel, .recovered⟩

/-- Who listens on a channel: a supervisor, by its forwarder, or somebody else. -/
inductive Listener where
  | forwarder (f : Forwarder)
  | visitor
deriving DecidableEq

def Listener.event? : Listener → Notice → Option ChannelEvent
  | .forwarder f, n => f.event? n
  | .visitor, _ => none

/-- A channel and the listeners to detach from it. -/
structure Held where
  channel : ChannelId
  listener : ListenerId
  recoveryListener : ListenerId
deriving DecidableEq

structure Supervisor where
  options : Options := {}
  held : Option Held := none
  everHeld : Bool := false
  disposed : Bool := false
  lock : Lock := {}
deriving Inhabited

namespace Supervisor

/-- Where a supervisor is in its life. -/
inductive State where
  | uninitialized
  | active
  | recreating
  | disposed
deriving DecidableEq

def State.name : State → String
  | .uninitialized => "Uninitialized"
  | .active => "Active"
  | .recreating => "Recreating"
  | .disposed => "Disposed"

def state (s : Supervisor) : State :=
  if s.disposed then .disposed
  else if s.held.isSome then .active
  else if s.everHeld then .recreating
  else .uninitialized

def channel? (s : Supervisor) : Option ChannelId :=
  s.held.map Held.channel

end Supervisor

end BrokerClient
