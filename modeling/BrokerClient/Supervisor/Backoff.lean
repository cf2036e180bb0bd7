import BrokerClient.Duration

/-!
# Backoff

The delays before further attempts: each is twice the one before, and none exceeds the longest.
-/
namespace BrokerClient

structure Backoff where
  next : Duration
  longest : Duration
deriving DecidableEq

namespace Backoff

def start (shortest longest : Duration) : Backoff :=
  ⟨shortest.min longest, longest⟩

def step (b : Backoff) : Duration × Backoff :=
  (b.next, ⟨b.next.double.min b.longest, b.longest⟩)

def delays : Nat → Backoff → List Duration
  | 0, _ => []
  | n + 1, b =>
    let (d, b) := b.step
    d :: delays n b

end Backoff

end BrokerClient
