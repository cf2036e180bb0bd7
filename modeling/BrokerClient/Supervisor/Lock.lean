/-!
# The lock of a supervisor

One invocation at a time owns the lock, the others wait in the order of their arrival. Who leaves
the lock hands it to the first in the queue; who leaves the queue is no longer waited for.
-/
namespace BrokerClient

/-- Invocations are numbered as they begin. -/
structure InvocationId where
  number : Nat
deriving DecidableEq, Inhabited

structure Lock where
  owner : Option InvocationId := none
  queue : List InvocationId := []
deriving DecidableEq, Inhabited

namespace Lock

/-- Takes a free lock, or goes to the end of the queue once. -/
def join (l : Lock) (i : InvocationId) : Lock :=
  match l.owner with
  | none => { l with owner := some i }
  | some o => if o = i ∨ i ∈ l.queue then l else { l with queue := l.queue ++ [i] }

/-- Gives up the lock or the place in the queue. -/
def leave (l : Lock) (i : InvocationId) : Lock :=
  if l.owner = some i then
    match l.queue with
    | [] => { l with owner := none }
    | j :: rest => ⟨some j, rest⟩
  else { l with queue := l.queue.filter (· ≠ i) }

end Lock

end BrokerClient
