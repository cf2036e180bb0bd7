import BrokerClient.Message.TypeProperty
import BrokerClient.Strategy.Payload

/-!
# Messages under the names of their predecessors

The strategy for types that evolve: a message also carries the names of the types that its type
supersedes, and a receiver reads it as the first of them that it knows.
-/
namespace BrokerClient

structure VersionedStrategy where
  names : TypeNames
  codec : BodyCodec
  supersession : Supersession

namespace VersionedStrategy

open Strategy

/-- The packet of a message; `fresh` is the identifier for one without. -/
def serialize (s : VersionedStrategy) (fresh : String) (m : Message) :
    Except MessageError Packet := do
  let payload ← encodeBody s.codec m
  let type ← TypeProperty.ofType m.type s.names s.supersession
  return ⟨ensureCorrelationId fresh (type.appendTo m.properties), payload⟩

def deserialize (s : VersionedStrategy) (p : Packet) : Except MessageError Message :=
  match (TypeProperty.ofProperties p.properties).resolve s.names with
  | .error e => .error (.unknownType e)
  | .ok t => do
    let body ← decodeBody s.codec t p.payload
    return ⟨t, body, p.properties⟩

def deserializeLog (s : VersionedStrategy) (p : Packet) : List Log.Record :=
  (TypeProperty.ofProperties p.properties).resolveLog s.names

end VersionedStrategy

end BrokerClient
