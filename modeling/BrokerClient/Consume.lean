import BrokerClient.HeaderValue

/-!
# Settings of consumers

What a consumer asks of the broker: how many deliveries may be under way, and for each queue how it
is read. Settings are plain values; a changed setting is a new value.
-/
namespace BrokerClient

/-- Settings for reading one queue. With an empty tag the broker chooses one. -/
structure QueueSettings where
  autoAck : Bool := false
  consumerTag : String := ""
  exclusive : Bool := false
  arguments : SortedMap HeaderValue := .empty
deriving Inhabited

namespace QueueSettings

def withArgument (q : QueueSettings) (name : String) (value : HeaderValue) : QueueSettings :=
  { q with arguments := q.arguments.insert name value }

def same (p q : QueueSettings) : Bool :=
  p.autoAck == q.autoAck && p.consumerTag == q.consumerTag && p.exclusive == q.exclusive &&
    HeaderValue.entriesSame p.arguments.entries q.arguments.entries

end QueueSettings

/-- Settings of a consumer of several queues, in the order in which they were added. -/
structure ConsumeSettings where
  prefetchCount : UInt16 := 50
  queues : List (String × QueueSettings) := []
deriving Inhabited

namespace ConsumeSettings

def addQueue (c : ConsumeSettings) (queue : String) (settings : QueueSettings) : ConsumeSettings :=
  { c with queues := c.queues ++ [(queue, settings)] }

def queue? (c : ConsumeSettings) (queue : String) : Option QueueSettings :=
  (c.queues.find? (fun q => q.1 = queue)).map (·.2)

def queuesSame : List (String × QueueSettings) → List (String × QueueSettings) → Bool
  | [], [] => true
  | (a, p) :: ps, (b, q) :: qs => a == b && p.same q && queuesSame ps qs
  | _, _ => false

def same (c d : ConsumeSettings) : Bool :=
  c.prefetchCount == d.prefetchCount && queuesSame c.queues d.queues

end ConsumeSettings

end BrokerClient
