import BrokerClient.Proofs.Scene.Deletion

/-!
# Cancellations

A cancellation touches only its caller. Before the lock the invocation might as well not have been made
(`SameBut`); past it, it gives up its next wait and leaves all but its lock as it was (`GivesUp`).
-/
namespace BrokerClient

namespace Scene

variable {α : Type} {w w' w₁ : Scene α} {e : Event α} {a : InvocationId} {p q : Participant α} {t : Token}

/-! ## Before the lock -/

theorem Queues.after (h : w.Queues a) (hs : w.Steps e w') (hc : t ∈ w.client.cancelled)
    (ht : ∀ p, w'.participants a = some p → p.invocation.token = some t) : w'.Queues a := by
  intro p hp
  cases hs with
  | deed => exact h p hp
  | @begin j s t' c q hl hj hb =>
      by_cases hja : a = j
      · cases (if_pos hja).symm.trans hp
        rw [hb.invocation]
        rfl
      · exact h p ((if_neg hja).symm.trans hp)
  | @move j m p' q c hf hj hm =>
      by_cases hja : a = j
      · subst hja
        cases (if_pos rfl).symm.trans hp
        have hv := h p' hj
        have hm := Client.leads_of_move? hm
        have htok : p'.invocation.token = some t := hm.same.2.2.symm.trans (ht p hp)
        have hi : w.client.interruption? (α := α) p'.invocation ≠ none :=
          fun hn => (Client.interruption?_eq_none.1 hn).2 t htok hc
        generalize w.client.attempted? p'.invocation m = x at hm
        cases hm with
        | looked _ hq => exact absurd hv hq
        | rested | givenUp | orphans | throws | succeeds => exact hv
        | unheld _ hn | discards _ hn | reuses _ hn => exact absurd hn hi
        | attaches hs => rw [hv] at hs; cases hs
        | suppresses hf => exact absurd hv hf.ne_queued
      · exact h p ((if_neg hja).symm.trans hp)

theorem cancelled_of_run {es : List (Event α)} (hrun : w.run es = some w') (hc : t ∈ w.client.cancelled) :
    t ∈ w'.client.cancelled := by
  induction es generalizing w with
  | nil => cases hrun; exact hc
  | cons e es ih =>
      obtain ⟨w₁, hs, hrun⟩ := run_cons_eq_some.1 hrun
      exact ih hrun ((steps_of_step hs).grows.cancelled t hc)

/-- Once it is cancelled, an invocation does not come past the queue any more. -/
theorem Queues.after_run {es : List (Event α)} (h : w.Queues a) (hrun : w.run es = some w')
    (hc : t ∈ w.client.cancelled) (hp : w'.participants a = some p) (ht : p.invocation.token = some t) :
    w'.Queues a := by
  induction es generalizing w with
  | nil => cases hrun; exact h
  | cons e es ih =>
      obtain ⟨w₁, hs, hrun⟩ := run_cons_eq_some.1 hrun
      have hs := steps_of_step hs
      refine ih (h.after hs hc fun p₁ hp₁ => ?_) hrun (hs.grows.cancelled t hc)
      obtain ⟨p', hp', -, htok⟩ := persists_of_run hrun hp₁
      rw [hp] at hp'
      cases hp'
      exact htok.symm.trans ht

/-- A scene without an invocation that is the same in all else. -/
structure SameBut (w : Scene α) (a : InvocationId) (w' : Scene α) : Prop where
  absent : w'.participants a = none
  participants : ∀ j, j ≠ a → w'.participants j = w.participants j
  connection : w'.client.connection = w.client.connection
  events : w'.client.events = w.client.events
  log : w'.client.log = w.client.log
  supervisors : ∀ s, w'.client.supervisor s =
    { w.client.supervisor s with lock := (w.client.supervisor s).lock.leave a }
  trace : w'.trace = w.trace.filter (fun k => !k.isOf a)

theorem sameBut_without (w : Scene α) (a : InvocationId) : w.SameBut a (w.without a) where
  absent := if_pos rfl
  participants _ hj := if_neg hj
  connection := rfl
  events := rfl
  log := rfl
  supervisors s := Client.supervisor_without w.client a s
  trace := rfl

/-! ## Past the lock -/

/-- A wait is given up: the lock goes to the next one in its queue, and nothing else happens. -/
structure GivesUp (w : Scene α) (a : InvocationId) (p : Participant α) (w' : Scene α) : Prop where
  ended : w'.participants a =
    some ⟨p.invocation, .ended (if w.client.isDisposed p.invocation.supervisor then .aborted else .cancelled)⟩
  participants : ∀ j, j ≠ a → w'.participants j = w.participants j
  connection : w'.client.connection = w.client.connection
  events : w'.client.events = w.client.events
  log : w'.client.log = w.client.log
  supervisors : ∀ s, s ≠ p.invocation.supervisor → w'.client.supervisor s = w.client.supervisor s
  supervisor : w'.client.supervisor p.invocation.supervisor = { w.client.supervisor p.invocation.supervisor with
    lock := ⟨(w.client.supervisor p.invocation.supervisor).lock.queue.head?,
      (w.client.supervisor p.invocation.supervisor).lock.queue.tail⟩ }

theorem interruption?_of_cancelled {c : Client} {v : Invocation} (ht : v.token = some t) (hc : t ∈ c.cancelled) :
    c.interruption? (α := α) v = some (if c.isDisposed v.supervisor then .aborted else .cancelled) := by
  simp only [Client.interruption?, ht, Option.any_some, decide_eq_true hc, if_true]
  split <;> rfl

theorem Reachable.givesUp {m : Move α} (h : w.Reachable) (hp : w.participants a = some p)
    (hw : p.phase = .waiting) (hq : p.invocation.stage ≠ .queued) (ht : p.invocation.token = some t)
    (hc : t ∈ w.client.cancelled) (hs : w.step (.move a m) = some w') : w.GivesUp a p w' := by
  have hid := (h.known hp).id
  have howner := h.locking.owner a p hp (by simp [hw]) hq
  obtain ⟨c, q, hm, rfl⟩ := move_of_step hs hp
  obtain ⟨-, rfl, rfl⟩ := Client.move?_of_interrupted hw (interruption?_of_cancelled ht hc) hm
  have hsup (s : SupervisorId) : (w.client.left p.invocation).supervisor s = if s = p.invocation.supervisor then
      { w.client.supervisor s with lock := (w.client.supervisor s).lock.leave a } else w.client.supervisor s := by
    rw [Client.left, Client.supervisor_modify_eq _ _ _ rfl, hid]
    split
    · rename_i h; rw [h]
    · rfl
  refine ⟨if_pos rfl, fun j hj => if_neg hj, rfl, rfl, rfl, fun s hs => (hsup s).trans (if_neg hs), ?_⟩
  apply (hsup _).trans
  rw [if_pos rfl, Lock.leave_of_owner howner]

/-! ## Within a turn -/

/-- What the answer of an action makes of its invocation: it ends with the answer, or waits for another attempt. -/
def Answered (w : Scene α) (p q : Participant α) : Except TransportError α → Prop
  | .ok x => q.phase = .ended (.ok x)
  | .error e =>
    if (w.client.verdict p.invocation e).rethrows then q.phase = .ended (.failed e)
    else q.phase = .waiting ∧ ∃ d, q.invocation.stage = .delaying d

theorem answered_of_acted {c c' : Client} {r : Except TransportError α}
    (h : (c', q) = Client.after p.invocation (c.acted p.invocation r)) (hc : c = w.client) : w.Answered p q r := by
  subst hc
  have hq := congrArg Prod.snd h
  simp only at hq
  cases r with
  | ok x => exact congrArg Participant.phase hq
  | error e =>
      simp only [Client.acted] at hq
      simp only [Answered]
      cases hr : (w.client.verdict p.invocation e).rethrows with
      | true =>
          rw [Client.fail_of_rethrows hr] at hq
          rw [if_pos rfl, hq]
          rfl
      | false =>
          rw [Client.fail_of_suppresses hr] at hq
          rw [if_neg Bool.false_ne_true, hq]
          exact ⟨rfl, _, rfl⟩

/-- A turn in which the action runs ends without an answer, or as the answer says. -/
theorem turn_of_acting {ch : ChannelId} {m : Move α} (hp : w.participants a = some p) (ht : p.phase = .turning)
    (hs : p.invocation.stage = .acting ch) (h : w.step (.move a m) = some w') :
    (w'.participants a = some ⟨p.invocation, .waiting⟩ ∧ w'.client = w.client) ∨
      ∃ r q, m = .answer (.acted r) ∧ w'.participants a = some q ∧ w.Answered p q r := by
  obtain ⟨c, q, hm, rfl⟩ := move_of_step h hp
  rcases Client.move?_of_acting ht hs hm with ⟨-, rfl, rfl⟩ | ⟨r, rfl, hq⟩
  · exact .inl ⟨if_pos rfl, rfl⟩
  · exact .inr ⟨r, q, rfl, if_pos rfl, answered_of_acted hq rfl⟩

/-- A cancellation touches only its caller. Called before the invocation came past the queue, the same run without
the invocation is the same for all others. Called later, the invocation gives up its next wait, and nothing else
happens. Called in the turn in which the action answers, the answer counts. -/
theorem cancellation_is_private {recoverable direct : Bool} {es₁ es₂ : List (Event α)}
    (h₁ : (start recoverable direct).run es₁ = some w₁) (h₂ : w₁.run es₂ = some w)
    (hc : t ∈ w₁.client.cancelled) (hp : w.participants a = some p) (ht : p.invocation.token = some t) :
    (w₁.Queues a →
      ∃ w', (start recoverable direct).run ((es₁ ++ es₂).filter (fun e => !e.isOf a)) = some w' ∧ w.SameBut a w') ∧
    (p.phase = .waiting → p.invocation.stage ≠ .queued →
      (∃ m w', w.step (.move a m) = some w') ∧ ∀ m w', w.step (.move a m) = some w' → w.GivesUp a p w') ∧
    (p.phase = .turning → ∀ ch, p.invocation.stage = .acting ch → ∀ m w', w.step (.move a m) = some w' →
      (w'.participants a = some ⟨p.invocation, .waiting⟩ ∧ w'.client = w.client) ∨
      ∃ r q, m = .answer (.acted r) ∧ w'.participants a = some q ∧ w.Answered p q r) := by
  have hr₁ := (Reachable.start recoverable direct).run h₁
  have hr := hr₁.run h₂
  have hc' : t ∈ w.client.cancelled := cancelled_of_run h₂ hc
  refine ⟨fun hq => ?_, fun hw hq => ⟨?_, fun m w' hs => hr.givesUp hp hw hq ht hc' hs⟩,
    fun hturn ch hs m w' hstep => turn_of_acting hp hturn hs hstep⟩
  · have hrun : (start recoverable direct).run (es₁ ++ es₂) = some w := by rw [run_append, h₁, Option.bind_some, h₂]
    have hdel := run_without (.start recoverable direct) hrun (hq.after_run h₂ hc hp ht)
    rw [start_without] at hdel
    exact ⟨_, hdel, sameBut_without w a⟩
  · obtain ⟨m, hm, hmove⟩ := Client.exists_move?_of_interrupted hw (interruption?_of_cancelled ht hc')
    have hf : isForeign (.move a m) = false := by rcases hm with rfl | rfl <;> rfl
    exact ⟨m, _, step_move (by rw [hf, Bool.and_false]) hp hmove⟩

/-- One action runs; another invocation waits for the lock and is cancelled, and gives up when it has its turn. -/
def overtaken : List (Event Nat) :=
  [.move ⟨0⟩ .look, .move ⟨0⟩ .opens, .move ⟨0⟩ .look, .move ⟨0⟩ (.answer (.acted (.ok 7))), .move ⟨1⟩ .enter,
    .move ⟨2⟩ .enter]

/-- Three invocations of one supervisor, the second of which is cancelled. -/
def queue : List (Event Nat) :=
  [.deed (.supervise {}), .begin ⟨0⟩ ⟨0⟩ none, .move ⟨0⟩ .enter, .begin ⟨1⟩ ⟨0⟩ (some ⟨"t"⟩), .begin ⟨2⟩ ⟨0⟩ none,
    .deed (.cancel ⟨"t"⟩)]

theorem cancellation_is_private_queue : ∃ w w', (start true true).run (queue ++ overtaken) = some w ∧
    (start true true).run ((queue ++ overtaken).filter (fun e => !e.isOf ⟨1⟩)) = some w' ∧ w.SameBut ⟨1⟩ w' := by
  obtain ⟨w₁, h₁⟩ := Option.isSome_iff_exists.1 (rfl : ((start true true).run queue).isSome = true)
  obtain ⟨w, h₂⟩ := Option.isSome_iff_exists.1 (map_of_run (fun w => (w.run overtaken).isSome) h₁ rfl : _ = true)
  have hrun : (start true true).run (queue ++ overtaken) = some w := by rw [run_append, h₁, Option.bind_some, h₂]
  have hc : ⟨"t"⟩ ∈ w₁.client.cancelled := by
    rw [map_of_run (·.client.cancelled) h₁ rfl]
    exact List.mem_singleton.2 rfl
  have hp : w.participants ⟨1⟩ =
      some ⟨⟨⟨1⟩, ⟨0⟩, some ⟨"t"⟩, ({} : Options).backoff, 0, .queued⟩, .ended .cancelled⟩ :=
    map_of_run (·.participants ⟨1⟩) hrun rfl
  have hq : w₁.Queues ⟨1⟩ := by
    intro p hp
    have := map_of_run (·.participants ⟨1⟩) h₁ rfl
    rw [this] at hp
    cases hp
    rfl
  obtain ⟨w', hw', hsame⟩ := (cancellation_is_private h₁ h₂ hc hp rfl).1 hq
  exact ⟨w, w', hrun, hw', hsame⟩

/-- An action that calls the cancellation of its own caller and answers in the same turn. -/
def selfCancelling : List (Event Nat) :=
  [.deed (.supervise {}), .begin ⟨0⟩ ⟨0⟩ (some ⟨"t"⟩), .move ⟨0⟩ .enter, .move ⟨0⟩ .look, .move ⟨0⟩ .opens,
    .move ⟨0⟩ .look, .deed (.cancel ⟨"t"⟩)]

/-- An invocation that is cancelled while its action runs does not always end with the cancellation. -/
theorem not_cancelled_while_acting : ¬∀ (es₁ es₂ : List (Event Nat)) (w₁ w : Scene Nat) (a : InvocationId)
    (p₁ p : Participant Nat) (t : Token) (o : Outcome Nat), (start true true).run es₁ = some w₁ →
    w₁.participants a = some p₁ → (∀ o, p₁.phase ≠ .ended o) →
    ((∃ ch, p₁.invocation.stage = .acting ch) ∨ ∃ d, p₁.invocation.stage = .delaying d) →
    p₁.invocation.token = some t → t ∈ w₁.client.cancelled → w₁.run es₂ = some w →
    w.participants a = some p → p.phase = .ended o → o = .cancelled ∨ o = .aborted := by
  intro h
  obtain ⟨w₁, h₁⟩ := Option.isSome_iff_exists.1 (rfl : ((start true true).run selfCancelling).isSome = true)
  obtain ⟨w, h₂⟩ := Option.isSome_iff_exists.1
    (map_of_run (fun w => (w.run [.move ⟨0⟩ (.answer (.acted (.ok 7)))]).isSome) h₁ rfl : _ = true)
  have hrun : (start true true).run (selfCancelling ++ [.move ⟨0⟩ (.answer (.acted (.ok 7)))]) = some w := by
    rw [run_append, h₁, Option.bind_some, h₂]
  have hp₁ := map_of_run (·.participants ⟨0⟩) h₁ rfl
  have hp := map_of_run (·.participants ⟨0⟩) hrun rfl
  have hc : ⟨"t"⟩ ∈ w₁.client.cancelled := by
    rw [map_of_run (·.client.cancelled) h₁ rfl]
    exact List.mem_singleton.2 rfl
  have := h selfCancelling _ w₁ w ⟨0⟩ _ _ ⟨"t"⟩ (.ok 7) h₁ hp₁ (by simp) (.inl ⟨⟨1⟩, rfl⟩) rfl hc h₂ hp rfl
  simp at this

end Scene

end BrokerClient
