import BrokerClient.Supervisor.Backoff
import BrokerClient.Supervisor.Verdict

/-!
# Options of supervisors
-/
namespace BrokerClient

structure Options where
  /-- Every new channel confirms published messages, and confirmations are made known. -/
  confirms : Bool := false
  shortestDelay : Duration := .ofMilliseconds 50
  longestDelay : Duration := .ofMilliseconds 5000
  classifier : Classifier := .default
deriving Inhabited

def Options.backoff (o : Options) : Backoff :=
  .start o.shortestDelay o.longestDelay

end BrokerClient
