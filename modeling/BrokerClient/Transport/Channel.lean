import BrokerClient.Transport

/-!
# Channels in memory

A channel that stands for one to a broker. Signals of the broker are raised on it, and it tells them
to the listeners that are attached. A listener is any value; an operation answers with what it told
to which listener.

Listeners and recovery listeners are kept apart but numbered together.
-/
namespace BrokerClient

inductive Signal where
  | ack (tag : UInt64) (multiple : Bool)
  | nack (tag : UInt64) (multiple : Bool)
  | returned (r : Returned)
  | shutdown (reason : ShutdownReason)
  | recovery

inductive Notice where
  | ack (tag : UInt64) (multiple : Bool)
  | nack (tag : UInt64) (multiple : Bool)
  | returned (r : Returned)
  | shutdown (reason : Option ShutdownReason)
  | recovered

structure Channel (α : Type) where
  id : ChannelId
  recoverable : Bool
  isOpen : Bool := true
  confirming : Bool := false
  closeCalls : Nat := 0
  nextListener : Nat := 1
  listeners : List (ListenerId × α) := []
  recoveryListeners : List (ListenerId × α) := []

/-- Notices with the listeners that get them, in order. -/
abbrev Deliveries (α : Type) := List (α × Notice)

namespace Channel

variable {α : Type}

def tell (c : Channel α) (n : Notice) : Deliveries α :=
  c.listeners.map (fun l => (l.2, n))

def tellRecovery (c : Channel α) : Deliveries α :=
  c.recoveryListeners.map (fun l => (l.2, .recovered))

/-- A shutdown closes the channel and a recovery opens it. -/
def raise (c : Channel α) : Signal → Channel α × Deliveries α
  | .ack tag multiple => (c, c.tell (.ack tag multiple))
  | .nack tag multiple => (c, c.tell (.nack tag multiple))
  | .returned r => (c, c.tell (.returned r))
  | .shutdown reason => ({ c with isOpen := false }, c.tell (.shutdown (some reason)))
  | .recovery => ({ c with isOpen := true }, c.tellRecovery)

/-- Every call is counted, but only an open channel shuts down. -/
def close (c : Channel α) : Channel α × Deliveries α :=
  ({ c with isOpen := false, closeCalls := c.closeCalls + 1 },
    if c.isOpen then c.tell (.shutdown (some .goodbye)) else [])

def confirmSelect (c : Channel α) : Except TransportError (Channel α) :=
  if c.isOpen then .ok { c with confirming := true } else .error (.interrupted none)

def addListener (c : Channel α) (l : α) : Channel α × ListenerId :=
  ({ c with nextListener := c.nextListener + 1,
            listeners := c.listeners ++ [(⟨c.nextListener⟩, l)] }, ⟨c.nextListener⟩)

def removeListener (c : Channel α) (id : ListenerId) : Channel α :=
  { c with listeners := c.listeners.filter (fun l => l.1 ≠ id) }

def addRecoveryListener (c : Channel α) (l : α) : Channel α × ListenerId :=
  ({ c with nextListener := c.nextListener + 1,
            recoveryListeners := c.recoveryListeners ++ [(⟨c.nextListener⟩, l)] },
    ⟨c.nextListener⟩)

def removeRecoveryListener (c : Channel α) (id : ListenerId) : Channel α :=
  { c with recoveryListeners := c.recoveryListeners.filter (fun l => l.1 ≠ id) }

def summary (c : Channel α) : String :=
  "MemoryChannel \x7b id: ChannelId(" ++ c.id.text ++ "), open: " ++
    (if c.isOpen then "true" else "false") ++ ", listeners: " ++ toString c.listeners.length ++
    ", .. \x7d"

end Channel

end BrokerClient
