import BrokerClient.Simulation.World

/-!
# Turns of tasks

A task that has its turn goes on until it has to wait or comes to its end. It first looks whether its
wait is given up, then whether what it waits for has come, and then does the work of its stage.
-/
namespace BrokerClient.Simulation.World

variable {α : Type}

/-! ## The work of a stage -/

/-- A task waits within its stage, or has the answer that its invocation waits for. -/
inductive Work (α : Type) where
  | waits (t : Task α)
  | answers (t : Task α) (a : Client.Answer (ChannelId × α))

def workAfter (w : World α) (t : Task α) (acts : List Act) (ch : ChannelId) : World α × Work α :=
  match w.act t.invocation.id (some ch) acts with
  | (w, .paused pause acts) => (w, .waits { t with errand := .after acts ch, pause })
  | (w, .failed e) => (w, .answers t (.opened (.error e)))
  | (w, .done) => (w, .answers t (.opened (.ok ch)))

/-- The acts before the opening of a channel, the opening, and the acts behind it. -/
def workBefore (w : World α) (t : Task α) (acts after : List Act) : World α × Work α :=
  match w.act t.invocation.id none acts with
  | (w, .paused pause acts) => (w, .waits { t with errand := .before acts after, pause })
  | (w, .failed e) => (w, .answers t (.opened (.error e)))
  | (w, .done) =>
    match w.client.openChannel with
    | (client, .error e) => ({ w with client }, .answers t (.opened (.error e)))
    | (client, .ok ch) => { w with client }.workAfter t after ch

def workOpening (w : World α) (t : Task α) : World α × Work α :=
  match t.errand with
  | .before acts after => w.workBefore t acts after
  | .after acts ch => w.workAfter t acts ch
  | _ =>
    match w.hooks with
    | [] => w.workBefore t [] []
    | h :: hooks => { w with hooks }.workBefore t h.before h.after

def mark (w : World α) (t : Task α) (ended : Bool) (ch : ChannelId) : World α :=
  { w with trace := w.trace ++ [⟨ended, t.name, t.calls, ch, w.clock⟩] }

def workCall (w : World α) (t : Task α) (acts : List Act) (ch : ChannelId)
    (result : Except TransportError α) : World α × Work α :=
  match w.act t.invocation.id (some ch) acts with
  | (w, .paused pause acts) => (w, .waits { t with errand := .call acts ch result, pause })
  | (w, .failed e) => (w.mark t true ch, .answers t (.acted (.error e)))
  | (w, .done) => (w.mark t true ch, .answers t (.acted (result.map (ch, ·))))

def workActing (w : World α) (t : Task α) (ch : ChannelId) : World α × Work α :=
  match t.errand with
  | .call acts ch result => w.workCall t acts ch result
  | _ =>
    let (c, t) := t.nextCall
    w.workCall t c.acts ch c.result

/-- Sets a timer for a delay; one of less than nothing passes at once. -/
def workDelaying (w : World α) (t : Task α) (d : Duration) : World α × Work α :=
  let ms := (d.nanoseconds + 999999) / 1000000
  if t.pause = .none ∧ 0 < ms then
    let due := w.clock + ms
    ({ w with timers := w.timers ++ [⟨due, t.invocation.id⟩] }, .waits { t with pause := .asleep due })
  else (w, .answers t .elapsed)

def work (w : World α) (t : Task α) : World α × Work α :=
  match t.invocation.stage with
  | .queued => (w, .waits t)
  | .opening => w.workOpening t
  | .acting ch => w.workActing t ch
  | .delaying d => w.workDelaying t d

/-! ## Turns -/

/-- Takes down a wait that is given up: a gate that was opened for it lets the next one pass. -/
def abandon (w : World α) (t : Task α) : World α :=
  match t.pause with
  | .atGate name true => w.openGate name
  | .atGate name false =>
    let g := w.gate name
    w.putGate name { g with waiting := g.waiting.filter (· ≠ t.invocation.id) }
  | _ => w

def isQueued (w : World α) (i : InvocationId) : Bool :=
  match w.task? i with
  | some t => t.invocation.stage == .queued
  | none => false

/-- The task has its outcome, and the lock may have passed to another one. -/
def conclude (w : World α) (t : Task α) (o : Outcome (ChannelId × α)) : World α :=
  let i := t.invocation.id
  let w := w.putTask { t with outcome := some (o, w.clock), errand := .none, pause := .none }
  let w : World α := { w with timers := w.timers.filter (fun r => r.task ≠ i) }
  let w := match (w.client.supervisorOf t.invocation).lock.owner with
    | some j => if w.isQueued j then w.wake j else w
    | none => w
  w.forget t.invocation.supervisor

/-- The task begins to wait in a new stage. Its action is called when it comes to act. -/
def reach (w : World α) (t : Task α) (i : Invocation) : World α × Task α :=
  let w := { w with stamp := w.stamp + 1 }
  let t := { t with invocation := i, errand := .none, pause := .none, since := w.stamp }
  match i.stage with
  | .acting ch =>
    let t := { t with calls := t.calls + 1 }
    (w.mark t false ch, t)
  | _ => (w, t)

/-- A task goes on. Each stage that it comes to uses up some fuel. -/
def go : Nat → World α → Task α → World α
  | 0, w, t => w.putTask t
  | fuel + 1, w, t =>
    let follow (w : World α) (t : Task α) (p : Client × Progress (ChannelId × α)) : World α :=
      let w := { w with client := p.1 }
      match p.2 with
      | .ended o => w.conclude t o
      | .waits i =>
        if i.stage = .queued then w.putTask t
        else
          let (w, t) := w.reach t i
          go fuel w t
    match w.client.interruption? (α := ChannelId × α) t.invocation with
    | some o =>
      let w := w.abandon t
      follow w t (w.client.finish t.invocation o)
    | none =>
      if !w.isOver t.pause then w.putTask t
      else if t.invocation.stage = .queued then follow w t (w.client.enter t.invocation)
      else
        match w.work t with
        | (w, .waits t) => w.putTask t
        | (w, .answers t a) => follow w t (w.client.answer t.invocation a)

/-- The stages that a task can come to in one turn: three for each attempt, and an attempt that is
followed by another one uses up a call, a hook or a failure laid up. -/
def stagesAhead (w : World α) (t : Task α) : Nat :=
  3 * (t.script.calls.length + w.hooks.length + w.client.connection.failures.length + 2)

def begin (w : World α) (t : Task α) : World α :=
  let i := t.invocation
  match w.client.invoke (α := ChannelId × α) i.id i.supervisor i.token with
  | .ended o => w.conclude t o
  | .waits i => go (w.stagesAhead t) w { t with invocation := i, since := w.stamp }

/-- A task has its turn, and perhaps another one if it was woken meanwhile. -/
def turn (w : World α) (i : InvocationId) : World α :=
  match w.task? i with
  | none => w
  | some t =>
    if t.isDone then w
    else
      let w := { w with current := some i, rewoken := false, stamp := w.stamp + 1 }
      let w := if t.since = 0 then w.begin t else go (w.stagesAhead t) w t
      let again := w.rewoken && !(w.task? i).any Task.isDone
      let w := { w with current := none, rewoken := false }
      if again then w.wake i else w

end BrokerClient.Simulation.World
