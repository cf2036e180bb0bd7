import BrokerClient.Log
import BrokerClient.Transport.Channel

/-!
# Connections in memory

A connection opens channels, which can recover or not as the connection was made. Failures can be
laid up for the next openings.
-/
namespace BrokerClient

structure Connection (α : Type) where
  recoverable : Bool := true
  failures : List TransportError := []
  channels : List (Channel α) := []

namespace Connection

variable {α : Type}

/-- Lets an opening fail, after those already laid up. -/
def failNext (c : Connection α) (e : TransportError) : Connection α :=
  { c with failures := c.failures ++ [e] }

/-- Opens a channel, unless a failure is laid up. -/
def openChannel (c : Connection α) : Connection α × Except TransportError ChannelId :=
  match c.failures with
  | e :: rest => ({ c with failures := rest }, .error e)
  | [] =>
    let id : ChannelId := ⟨c.channels.length + 1⟩
    ({ c with channels := c.channels ++ [{ id := id, recoverable := c.recoverable }] }, .ok id)

def openLog (id : ChannelId) : Log.Record :=
  ⟨.trace, "memory channel opened", [("channel", id.text)]⟩

def channel? (c : Connection α) (id : ChannelId) : Option (Channel α) :=
  c.channels.find? (fun ch => ch.id = id)

def last? (c : Connection α) : Option ChannelId :=
  c.channels.getLast?.map Channel.id

/-- Puts the channel in the place of the one with its number. -/
def put (c : Connection α) (ch : Channel α) : Connection α :=
  { c with channels := c.channels.map (fun old => if old.id = ch.id then ch else old) }

/-- Changes one channel; the answer is missing if there is none with the number. -/
def modify {β : Type} (c : Connection α) (id : ChannelId) (f : Channel α → Channel α × β) :
    Connection α × Option β :=
  match c.channel? id with
  | some ch => let (ch, b) := f ch; (c.put ch, some b)
  | none => (c, none)

def deliver (c : Connection α) (id : ChannelId) (f : Channel α → Channel α × Deliveries α) :
    Connection α × Deliveries α :=
  let (c, ds) := c.modify id f
  (c, ds.getD [])

end Connection

end BrokerClient
