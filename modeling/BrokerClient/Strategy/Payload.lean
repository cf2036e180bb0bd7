import BrokerClient.Message.Codec
import BrokerClient.Message.Error

/-!
# Parts that the strategies share

The payload of a body, the body of a payload, and the correlation identifier that every published
message has.
-/
namespace BrokerClient.Strategy

/-- No body gives an empty payload. -/
def encodeBody (codec : BodyCodec) (m : Message) : Except MessageError Text.Octets :=
  match m.body with
  | none => .ok []
  | some b =>
    match codec.encode m.type b with
    | .ok bs => .ok bs
    | .error reason => .error (.encode m.type reason)

/-- An empty payload is no body. -/
def decodeBody (codec : BodyCodec) (t : MessageType) (payload : Text.Octets) :
    Except MessageError (Option Body) :=
  if payload.isEmpty then .ok none
  else
    match codec.decode t payload with
    | .ok b => .ok (some b)
    | .error reason => .error (.decode t reason)

/-- Keeps an identifier that is there, unless it is empty. -/
def ensureCorrelationId (fresh : String) (p : Properties) : Properties :=
  match p.correlationId with
  | some id => if id.isEmpty then { p with correlationId := some fresh } else p
  | none => { p with correlationId := some fresh }

end BrokerClient.Strategy
