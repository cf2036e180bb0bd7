import BrokerClient.Transport

/-!
# Events of channels and their bus

What a supervised channel makes known, and a bus that hands it to subscribers. A subscriber receives
what is published after it came. The bus keeps so many of the latest events; a subscriber that fell
further behind learns once how many it missed and goes on with the oldest one kept.
-/
namespace BrokerClient

inductive ChannelEvent.Kind where
  | confirmation (tag : UInt64) (multiple nack : Bool)
  | returned (body : Text.Octets) (properties : Properties) (exchange routingKey replyText : String)
  | shutdown (reason : Option ShutdownReason)
  | recovered

structure ChannelEvent where
  channel : ChannelId
  kind : ChannelEvent.Kind

structure EventBus where
  /-- How many events are kept. -/
  kept : Nat
  published : Array ChannelEvent := #[]
  subscribers : Nat := 0
  closed : Bool := false

/-- A subscriber: the number of events before the next one that it receives. -/
structure Subscription where
  next : Nat
deriving DecidableEq

inductive Receipt where
  | event (e : ChannelEvent)
  | missed (n : Nat)
  | empty
  | closed

namespace EventBus

/-- The least power of two that is at least `n`. -/
def powerOfTwoFrom (n : Nat) : Nat :=
  if n ≤ 1 then 1 else 1 <<< ((n - 1).log2 + 1)

/-- A bus that keeps at least one event and at least so many, a power of two of them. -/
def ofCapacity (capacity : Nat) : EventBus :=
  ⟨powerOfTwoFrom capacity, #[], 0, false⟩

def defaultCapacity : Nat :=
  1024

def publish (b : EventBus) (e : ChannelEvent) : EventBus :=
  { b with published := b.published.push e }

def subscribe (b : EventBus) : EventBus × Subscription :=
  ({ b with subscribers := b.subscribers + 1 }, ⟨b.published.size⟩)

def unsubscribe (b : EventBus) : EventBus :=
  { b with subscribers := b.subscribers - 1 }

def close (b : EventBus) : EventBus :=
  { b with closed := true }

def dropped (b : EventBus) : Nat :=
  b.published.size - b.kept

def receive (b : EventBus) (s : Subscription) : Subscription × Receipt :=
  if s.next < b.dropped then (⟨b.dropped⟩, .missed (b.dropped - s.next))
  else
    match b.published[s.next]? with
    | some e => (⟨s.next + 1⟩, .event e)
    | none => (s, if b.closed then .closed else .empty)

end EventBus

end BrokerClient
