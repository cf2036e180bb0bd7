import BrokerClient.Simulation.Script

/-!
# The world of a simulation

One thread on which tasks take turns, and a clock in milliseconds. Tasks that can go on are in a
queue; a task that yielded comes back when the queue is empty, the last one first. A gate lets one
waiting task pass each time it is opened, or the next one to come.
-/
namespace BrokerClient.Simulation

structure Gate where
  /-- It was opened while nobody waited. -/
  isOpen : Bool := false
  waiting : List InvocationId := []
deriving Inhabited

structure Timer where
  due : Nat
  task : InvocationId

structure Mark where
  ended : Bool
  task : String
  call : Nat
  channel : ChannelId
  time : Nat

structure World (α : Type) where
  client : Client := {}
  /-- The supervisors that can be used by their names. -/
  names : List (String × SupervisorId) := []
  hooks : List Hook := []
  tasks : List (Task α) := []
  ready : List InvocationId := []
  yielded : List InvocationId := []
  clock : Nat := 0
  /-- In the order in which they were set. -/
  timers : List Timer := []
  gates : List (String × Gate) := []
  stamp : Nat := 0
  /-- The task whose turn it is was woken meanwhile. -/
  rewoken : Bool := false
  current : Option InvocationId := none
  trace : List Mark := []

namespace World

variable {α : Type}

/-! ## Tasks -/

def task? (w : World α) (i : InvocationId) : Option (Task α) :=
  w.tasks[i.number]?

def putTask (w : World α) (t : Task α) : World α :=
  { w with tasks := w.tasks.set t.invocation.id.number t }

/-- Lets a task go on, once. The one whose turn it is comes again after its turn. -/
def wake (w : World α) (i : InvocationId) : World α :=
  if w.current = some i then { w with rewoken := true }
  else if i ∈ w.ready then w
  else { w with ready := w.ready ++ [i] }

def wakeAll (w : World α) (is : List InvocationId) : World α :=
  is.foldl wake w

/-- The tasks under way with a property, in the order in which they began to wait. -/
def waiting (w : World α) (p : Task α → Bool) : List InvocationId :=
  ((w.tasks.filter (fun t => !t.isDone && p t)).mergeSort (fun s t => s.since ≤ t.since)).map
    (·.invocation.id)

/-! ## Deeds -/

def dispose (w : World α) (s : SupervisorId) : World α :=
  if w.client.isDisposed s then w
  else
    let w := w.wakeAll (w.waiting (fun t => t.invocation.supervisor == s))
    { w with client := w.client.dispose s }

def disposeNamed (w : World α) (name : String) : World α :=
  match Entries.get? w.names name with
  | some s => w.dispose s
  | none => w

def cancel (w : World α) (token : Token) : World α :=
  if token ∈ w.client.cancelled then w
  else
    let w := { w with client := w.client.cancel token }
    w.wakeAll (w.waiting (fun t => t.invocation.token == some token))

def gate (w : World α) (name : String) : Gate :=
  (Entries.get? w.gates name).getD {}

def putGate (w : World α) (name : String) (g : Gate) : World α :=
  { w with gates := Entries.insert name g w.gates }

def openGate (w : World α) (name : String) : World α :=
  let g := w.gate name
  match g.waiting with
  | [] => w.putGate name { g with isOpen := true }
  | i :: rest =>
    let w := w.putGate name { g with waiting := rest }
    let w := match w.task? i with
      | some t => w.putTask { t with pause := .atGate name true }
      | none => w
    w.wake i

/-- A supervisor without a name ends when no invocation uses it any more. -/
def forget (w : World α) (s : SupervisorId) : World α :=
  let used := w.names.any (·.2 == s) ||
    w.tasks.any (fun t => !t.isDone && t.invocation.supervisor == s)
  if used then w else { w with client := w.client.dispose s }

/-! ## Acts -/

/-- How a row of acts came out: all done, one failed, or one is waiting, with those behind it. -/
inductive Ran where
  | done
  | failed (e : TransportError)
  | paused (p : Pause) (acts : List Act)

/-- Runs acts of a task up to the first that waits. Without a channel the acts on it do nothing. -/
def act (w : World α) (i : InvocationId) (channel : Option ChannelId) : List Act → World α × Ran
  | [] => (w, .done)
  | a :: acts =>
    let onChannel (f : ChannelId → Client) : World α :=
      match channel with
      | some ch => { w with client := f ch }
      | none => w
    match a with
    | .sleep ms =>
      if ms = 0 then w.act i channel acts
      else
        ({ w with timers := w.timers ++ [⟨w.clock + ms, i⟩] }, .paused (.asleep (w.clock + ms)) acts)
    | .yield => ({ w with yielded := i :: w.yielded }, .paused .yielded acts)
    | .gate name =>
      let g := w.gate name
      if g.isOpen then (w.putGate name { g with isOpen := false }).act i channel acts
      else
        (w.putGate name { g with waiting := g.waiting ++ [i] }, .paused (.atGate name false) acts)
    | .dispose name => (w.disposeNamed name).act i channel acts
    | .cancel token => (w.cancel token).act i channel acts
    | .confirmSelect =>
      match channel with
      | none => w.act i channel acts
      | some ch =>
        match w.client.confirmSelect ch with
        | .ok client => { w with client }.act i channel acts
        | .error e => (w, .failed e)
    | .signal s => (onChannel (fun ch => w.client.raise ch s)).act i channel acts
    | .close => (onChannel (fun ch => w.client.close ch)).act i channel acts

/-- Whether the time, the turn or the gate that a task waits for has come. -/
def isOver (w : World α) : Pause → Bool
  | .none => true
  | .asleep due => due ≤ w.clock
  | .yielded => true
  | .atGate _ passed => passed

end World

end BrokerClient.Simulation
