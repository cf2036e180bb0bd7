import BrokerClient.Strategy.Default
import BrokerClient.Strategy.Versioned

/-!
# Strategies

Either way of turning messages into packets and back.
-/
namespace BrokerClient

inductive Strategy where
  | default (s : DefaultStrategy)
  | versioned (s : VersionedStrategy)

namespace Strategy

def serialize : Strategy → String → Message → Except MessageError Packet
  | .default s => s.serialize
  | .versioned s => s.serialize

def deserialize : Strategy → Packet → Except MessageError Message
  | .default s => s.deserialize
  | .versioned s => s.deserialize

def deserializeLog : Strategy → Packet → List Log.Record
  | .default _, _ => []
  | .versioned s, p => s.deserializeLog p

end Strategy

/-- Every text header as the octets of its text, as brokers hand headers back. -/
def Properties.headersToOctets (p : Properties) : Properties :=
  p.mapHeaders fun h =>
    SortedMap.ofPairs (h.entries.map fun (k, v) =>
      match v.asText with
      | some s => (k, .bytes (Text.utf8 s))
      | none => (k, v))

end BrokerClient
