import BrokerClient.Body.MsgPack
import BrokerClient.Message

/-!
# Codecs for bodies

A codec turns the body of a message into octets and back. It may fail and then says why.
-/
namespace BrokerClient

structure BodyCodec where
  encode : MessageType → Body → Except String Text.Octets
  decode : MessageType → Text.Octets → Except String Body

namespace BodyCodec

def orReason {α : Type} (reason : String) : Option α → Except String α
  | some a => .ok a
  | none => .error reason

/-- Compact JSON in UTF-8. -/
def json : BodyCodec where
  encode _ b := .ok (Text.utf8 b.text)
  decode _ bs := orReason "not a JSON text" ((Text.ofUtf8? bs).bind Body.ofText?)

/-- MessagePack with objects as maps. -/
def msgPack : BodyCodec where
  encode _ b := .ok (Body.MsgPack.octets b)
  decode _ bs := orReason "not a MessagePack value" (Body.MsgPack.ofOctets? bs)

def failing (reason : String) : BodyCodec where
  encode _ _ := .error reason
  decode _ _ := .error reason

end BodyCodec

end BrokerClient
