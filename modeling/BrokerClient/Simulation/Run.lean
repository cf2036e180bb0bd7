import BrokerClient.Simulation.Turn

/-!
# Running a simulation

Tasks have their turns until all of them wait; only then the clock moves, straight to the next
timer. A step of a scenario does something from outside, and then everything runs until it waits.
-/
namespace BrokerClient.Simulation.World

variable {α : Type}

/-! ## How much there is to do -/

def callActs (cs : List (Call α)) : Nat :=
  cs.foldl (fun n c => n + c.acts.length + 1) 0

def errandActs : Errand α → Nat
  | .none => 0
  | .before acts after => acts.length + after.length
  | .after acts _ => acts.length
  | .call acts _ _ => acts.length

/-- Acts, calls and failures that are still to come. -/
def remaining (w : World α) : Nat :=
  w.tasks.foldl (fun n t => n + callActs t.script.calls + errandActs t.errand) 0 +
    w.hooks.foldl (fun n h => n + h.before.length + h.after.length) 0 +
    w.client.connection.failures.length

/-- A bound on the turns: an act wakes each task at most once, and a task ends once. -/
def turnsAhead (w : World α) : Nat :=
  w.ready.length + w.yielded.length + w.timers.length +
    (w.remaining + w.tasks.length + 1) * (w.tasks.length + 2)

/-! ## Turns and time -/

/-- Tasks have their turns until the queue is empty and nobody has yielded. -/
def drain : Nat → World α → World α
  | 0, w => w
  | n + 1, w =>
    match w.ready with
    | i :: rest => drain n ({ w with ready := rest }.turn i)
    | [] =>
      match w.yielded with
      | [] => w
      | is => drain n { w with ready := is, yielded := [] }

def settle (w : World α) : World α :=
  drain (2 * w.turnsAhead) w

def nextDue? (w : World α) : Option Nat :=
  (w.timers.map Timer.due).min?

/-- Moves the clock and wakes the tasks whose timers are due, in the order of time and of setting. -/
def moveTo (w : World α) (time : Nat) : World α :=
  let (due, timers) := w.timers.partition (fun r => r.due ≤ time)
  let due := due.mergeSort (fun r s => r.due ≤ s.due)
  { w with clock := max w.clock time, timers }.wakeAll (due.map Timer.task)

/-- Lets time pass until the limit, or until something has come about. At the limit it is seen what
has come about before the tasks of that moment have their turns. -/
def pass (stop : World α → Bool) (limit : Option Nat) : Nat → World α → World α
  | 0, w => w
  | n + 1, w =>
    let w := w.settle
    if stop w then w
    else
      match w.nextDue?, limit with
      | none, none => w
      | none, some l => w.moveTo l
      | some due, none => pass stop limit n (w.moveTo due)
      | some due, some l =>
        if l ≤ due then w.moveTo l else pass stop limit n (w.moveTo due)

/-- A bound on how often the clock moves: each act and each failed attempt sets a timer at most. -/
def movesAhead (w : World α) : Nat :=
  w.timers.length + w.remaining + w.tasks.length + 2

/-! ## Steps -/

inductive Step (α : Type) where
  | supervise (name : String) (o : Options)
  | spawn (task supervisor : String) (script : Script α) (token : Option Token)
  | invoke (task supervisor : String) (script : Script α) (token : Option Token)
  | join (task : String) (limit : Nat)
  | sleep (ms : Nat)
  | openGate (name : String)
  | cancel (t : Token)
  | dispose (supervisor : String)
  | drop (supervisor : String)
  | failNext (e : TransportError)
  | signal (ch : ChannelId) (s : Signal)
  | close (ch : ChannelId)
  | look

inductive Reply (α : Type) where
  | nothing
  | pending
  | outcome (o : Outcome (ChannelId × α)) (time : Nat)

/-- Gives a name to a new supervisor. The one that had it is forgotten. -/
def supervise (w : World α) (name : String) (o : Options) : World α :=
  let old := Entries.get? w.names name
  let (client, s) := w.client.addSupervisor o
  let w := { w with client, names := Entries.insert name s w.names }
  match old with
  | some s => w.forget s
  | none => w

def drop (w : World α) (name : String) : World α :=
  match Entries.get? w.names name with
  | some s => { w with names := Entries.erase name w.names }.forget s
  | none => w

/-- Adds a task, which has its first turn after those that are ready. -/
def spawn (w : World α) (name supervisor : String) (script : Script α) (token : Option Token) :
    World α :=
  match Entries.get? w.names supervisor with
  | none => w
  | some s =>
    let id : InvocationId := ⟨w.tasks.length⟩
    let invocation : Invocation := { id, supervisor := s, token, backoff := .start .zero .zero }
    let t : Task α := { name, invocation, script }
    { w with tasks := w.tasks ++ [t] }.wake id

/-- The task that was begun last under a name. -/
def taskNamed? (w : World α) (name : String) : Option (Task α) :=
  w.tasks.reverse.find? (fun t => t.name = name)

def reply (w : World α) (task : String) : Reply α :=
  match (w.taskNamed? task).bind Task.outcome with
  | some (o, time) => .outcome o time
  | none => .pending

/-- Waits for a task until it ends or the limit has passed. -/
def join (w : World α) (task : String) (limit : Option Nat) : World α × Reply α :=
  let ended (w : World α) : Bool := (w.taskNamed? task).any Task.isDone
  let w := pass ended (limit.map (w.clock + ·)) w.movesAhead w
  (w, w.reply task)

def perform (w : World α) : Step α → World α × Reply α
  | .supervise name o => (w.supervise name o, .nothing)
  | .spawn task s script token => (w.spawn task s script token, .nothing)
  | .invoke task s script token => (w.spawn task s script token).join task none
  | .join task limit => w.join task (some limit)
  | .sleep ms => (pass (fun _ => false) (some (w.clock + ms)) w.movesAhead w, .nothing)
  | .openGate name => (w.openGate name, .nothing)
  | .cancel t => (w.cancel t, .nothing)
  | .dispose name => (w.disposeNamed name, .nothing)
  | .drop name => (w.drop name, .nothing)
  | .failNext e => ({ w with client := w.client.failNext e }, .nothing)
  | .signal ch s => ({ w with client := w.client.raise ch s }, .nothing)
  | .close ch => ({ w with client := w.client.close ch }, .nothing)
  | .look => (w, .nothing)

/-- A step, and all that follows from it before time passes. -/
def step (w : World α) (s : Step α) : World α × Reply α :=
  let (w, r) := w.perform s
  (w.settle, r)

/-- Forgets what has been told: events, records and marks. -/
def told (w : World α) : World α :=
  { w with client := { w.client with events := [], log := [] }, trace := [] }

end BrokerClient.Simulation.World
