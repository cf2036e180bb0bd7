import BrokerClient.Body
import BrokerClient.Properties

/-!
# Messages

A message has a type, perhaps a body, and properties. On the wire it is its properties and a
payload, which is empty when there is no body.
-/
namespace BrokerClient

structure MessageType where
  name : String
deriving DecidableEq, Inhabited

structure Message where
  type : MessageType
  body : Option Body
  properties : Properties
deriving Inhabited

/-- A message as it is published and received. -/
structure Packet where
  properties : Properties := {}
  payload : Text.Octets := []
deriving Inhabited

end BrokerClient
