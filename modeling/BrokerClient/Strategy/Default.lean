import BrokerClient.Message.TypeNames
import BrokerClient.Strategy.Payload

/-!
# Messages under one name

The strategy for messages that are read as the very type as which they were written.
-/
namespace BrokerClient

structure DefaultStrategy where
  names : TypeNames
  codec : BodyCodec

namespace DefaultStrategy

open Strategy

/-- The packet of a message; `fresh` is the identifier for one without. -/
def serialize (s : DefaultStrategy) (fresh : String) (m : Message) :
    Except MessageError Packet := do
  let name ← s.names.nameOf m.type
  let payload ← encodeBody s.codec m
  return ⟨ensureCorrelationId fresh { m.properties with typeName := some name }, payload⟩

def deserialize (s : DefaultStrategy) (p : Packet) : Except MessageError Message :=
  match p.properties.typeName with
  | none => .error (.unknownType ⟨[]⟩)
  | some name =>
    match s.names.typeOf name with
    | .error e => .error (.unknownType e)
    | .ok t => do
      let body ← decodeBody s.codec t p.payload
      return ⟨t, body, p.properties⟩

end DefaultStrategy

end BrokerClient
