import BrokerClient.Message
import BrokerClient.Text.Quoted

/-!
# Failures of encoding and decoding

Why a message could not be written or read, and the text that tells so.
-/
namespace BrokerClient

/-- No candidate name stands for a known type. -/
structure UnknownType where
  candidates : List String
deriving DecidableEq

def UnknownType.message (e : UnknownType) : String :=
  "cannot resolve a message type from " ++ Text.quoteList e.candidates

inductive MessageError where
  | unknownType (e : UnknownType)
  | nameTooLong (name : String) (limit : Nat)
  | supersessionCycle (type : MessageType)
  | encode (type : MessageType) (reason : String)
  | decode (type : MessageType) (reason : String)
  | body (type : MessageType) (reason : String)
deriving DecidableEq

private def ticked (s : String) : String :=
  "\x60" ++ s ++ "\x60"

def MessageError.message : MessageError → String
  | .unknownType e => e.message
  | .nameTooLong name limit =>
    "type name " ++ ticked name ++ " is longer than " ++ toString limit ++ " characters"
  | .supersessionCycle t => "supersession chain of " ++ ticked t.name ++ " contains a cycle"
  | .encode t reason => "failed to encode body of " ++ ticked t.name ++ ": " ++ reason
  | .decode t reason => "failed to decode body of " ++ ticked t.name ++ ": " ++ reason
  | .body t reason => "message body does not match " ++ ticked t.name ++ ": " ++ reason

end BrokerClient
