import BrokerClient.Client.Invocation

/-!
# Scripts of actions

What the action of a scripted invocation does at each of its calls, and what happens around the
opening of a channel. Acts run one after another; sleeping, yielding and waiting at a gate let
others go on meanwhile.
-/
namespace BrokerClient.Simulation

inductive Act where
  | sleep (ms : Nat)
  | yield
  | gate (name : String)
  | dispose (supervisor : String)
  | cancel (token : Token)
  | confirmSelect
  | signal (s : Signal)
  | close

/-- One call of an action: its acts, and how it ends unless an act fails. -/
structure Call (α : Type) where
  acts : List Act
  result : Except TransportError α

/-- The calls in order; each call after them succeeds at once. -/
structure Script (α : Type) where
  calls : List (Call α)
  rest : α

/-- Acts before and after the opening of a channel, the latter on the new channel. -/
structure Hook where
  before : List Act := []
  after : List Act := []

inductive Errand (α : Type) where
  | none
  | before (acts after : List Act)
  | after (acts : List Act) (channel : ChannelId)
  | call (acts : List Act) (channel : ChannelId) (result : Except TransportError α)

/-- What the next act or the delay of a task waits for. -/
inductive Pause where
  | none
  | asleep (due : Nat)
  | yielded
  | atGate (name : String) (passed : Bool)
deriving DecidableEq

/-- A scripted invocation, not yet begun, under way or ended. `since` orders tasks by when they began
to wait in their stage; it is zero before the first turn. -/
structure Task (α : Type) where
  name : String
  invocation : Invocation
  script : Script α
  /-- How often the action has been called. -/
  calls : Nat := 0
  errand : Errand α := .none
  pause : Pause := .none
  since : Nat := 0
  outcome : Option (Outcome (ChannelId × α) × Nat) := none

def Task.isDone {α : Type} (t : Task α) : Bool :=
  t.outcome.isSome

def Task.nextCall {α : Type} (t : Task α) : Call α × Task α :=
  match t.script.calls with
  | [] => (⟨[], .ok t.script.rest⟩, t)
  | c :: calls => (c, { t with script.calls := calls })

end BrokerClient.Simulation
