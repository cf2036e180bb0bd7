import BrokerClient.Properties.Basic

/-!
# The transport

What a channel to the broker tells and is told: identifiers, reasons for shutdowns, returned
messages, and the ways in which an operation on a channel fails.
-/
namespace BrokerClient

/-- Channels are numbered as they are opened, from one. -/
structure ChannelId where
  number : Nat
deriving DecidableEq, Inhabited

def ChannelId.text (id : ChannelId) : String :=
  toString id.number

/-- The handle by which a listener is detached again. -/
structure ListenerId where
  number : Nat
deriving DecidableEq, Inhabited

/-! ## Shutdowns -/

/-- Who began a shutdown. -/
inductive Initiator where
  | application
  | library
  | peer
deriving DecidableEq

def Initiator.name : Initiator → String
  | .application => "Application"
  | .library => "Library"
  | .peer => "Peer"

structure ShutdownReason where
  initiator : Initiator
  replyCode : UInt16
  replyText : String
deriving DecidableEq

def ShutdownReason.text (r : ShutdownReason) : String :=
  r.initiator.name ++ " initiated, code=" ++ toString r.replyCode.toNat ++ ", text=" ++ r.replyText

/-- The reason of a shutdown by a call of `close`. -/
def ShutdownReason.goodbye : ShutdownReason :=
  ⟨.application, 200, "Goodbye"⟩

/-! ## Returned messages -/

/-- A published message that the broker could not route. -/
structure Returned where
  exchange : String
  routingKey : String
  replyCode : UInt16
  replyText : String
  properties : BasicProperties
  body : Text.Octets

/-! ## Failures -/

inductive TransportError where
  | interrupted (reason : Option ShutdownReason)
  | notSupported (what : String)
  | unreachable (why : String)
  | client (what : String)
  | other (what : String)
deriving DecidableEq

def TransportError.message : TransportError → String
  | .interrupted none => "operation interrupted: no reason given"
  | .interrupted (some r) => "operation interrupted: " ++ r.text
  | .notSupported what => "not supported: " ++ what
  | .unreachable why => "broker unreachable: " ++ why
  | .client what => "client error: " ++ what
  | .other what => what

end BrokerClient
