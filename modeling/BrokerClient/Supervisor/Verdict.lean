import BrokerClient.Transport

/-!
# Verdicts on failures

Whether a failed action is tried again, and whether the channel on which it failed is discarded. A
classifier decides by the reply code of an interruption and by the kind of every other failure.
-/
namespace BrokerClient

inductive Verdict where
  | suppress
  | suppressAndClose
  | throw
  | throwAndClose
deriving DecidableEq

namespace Verdict

def name : Verdict → String
  | .suppress => "Suppress"
  | .suppressAndClose => "SuppressAndCloseChannel"
  | .throw => "Throw"
  | .throwAndClose => "ThrowAndCloseChannel"

def rethrows (v : Verdict) : Bool :=
  v == .throw || v == .throwAndClose

def closes (v : Verdict) : Bool :=
  v == .suppressAndClose || v == .throwAndClose

end Verdict

/-- The words of a transport that refuses requests while another one is under way. -/
def pipeliningForbidden : String :=
  "Pipelining of requests forbidden"

/-- Whether a text occurs inside another one. -/
def occursIn (needle : List Char) : List Char → Bool
  | [] => needle.isEmpty
  | c :: cs => needle.isPrefixOf (c :: cs) || occursIn needle cs

def isPipeliningForbidden (message : String) : Bool :=
  occursIn pipeliningForbidden.toList message.toList

/-- The verdicts on interruptions, by reply code. -/
structure Classifier where
  byReplyCode : UInt16 → Verdict

namespace Classifier

/-- A forced close of the connection passes; a refusal is final and costs the channel; an internal
error of the broker costs the channel alone. -/
def default : Classifier where
  byReplyCode code :=
    if code = 320 then .suppress
    else if code = 403 ∨ code = 404 ∨ code = 405 ∨ code = 406 then .throwAndClose
    else if code = 541 then .suppressAndClose
    else .throw

instance : Inhabited Classifier :=
  ⟨default⟩

def withReplyCode (c : Classifier) (code : UInt16) (v : Verdict) : Classifier where
  byReplyCode other := if other = code then v else c.byReplyCode other

/-- The classifier after all overrides, the first one first. -/
def withReplyCodes (c : Classifier) (overrides : List (UInt16 × Verdict)) : Classifier :=
  overrides.foldl (fun c o => c.withReplyCode o.1 o.2) c

def classify (c : Classifier) : TransportError → Verdict
  | .interrupted (some reason) => c.byReplyCode reason.replyCode
  | .interrupted none => .throw
  | .notSupported what => if isPipeliningForbidden what then .suppressAndClose else .throw
  | .unreachable _ => .suppress
  | .client _ => .suppress
  | .other _ => .throw

end Classifier

end BrokerClient
