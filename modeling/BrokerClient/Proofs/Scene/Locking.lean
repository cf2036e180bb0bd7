import BrokerClient.Proofs.Scene.Runs
import BrokerClient.Proofs.Supervisor.Lock

/-!
# Locks

Who is under way is in the lock of his supervisor, once, and only the owner is past the queue
(`Reachable.locking`).
-/
namespace BrokerClient

namespace Client

variable {α : Type} {c c' : Client} {s : SupervisorId} {v : Invocation} {m : Move α}

/-! ## Locks after an operation -/

@[simp] theorem lock_left (c : Client) (v : Invocation) (s : SupervisorId) :
    ((c.left v).supervisor s).lock =
      if s = v.supervisor then (c.supervisor s).lock.leave v.id else (c.supervisor s).lock := by
  rw [left, supervisor_modify_eq _ _ _ rfl]
  split
  · rename_i h; rw [h]
  · rfl

theorem lock_joined (hs : v.supervisor.number < c.supervisors.length) (s : SupervisorId) :
    ((c.joined v).supervisor s).lock =
      if s = v.supervisor then (c.supervisor s).lock.join v.id else (c.supervisor s).lock := by
  rw [joined, supervisor_modify]
  by_cases h : s = v.supervisor
  · rw [if_pos ⟨h, hs⟩, if_pos h, h]
  · rw [if_neg (fun hm => h hm.1), if_neg h]

@[simp] theorem lock_closeHeld (c : Client) (s s' : SupervisorId) :
    ((c.closeHeld s).supervisor s').lock = (c.supervisor s').lock := by
  rw [supervisor_closeHeld]
  split
  · rename_i h; rw [h]
  · rfl

theorem lock_attach {id : ChannelId} {r : Except TransportError Unit} (h : c.attach s id = (c', r))
    (s' : SupervisorId) : (c'.supervisor s').lock = (c.supervisor s').lock := by
  cases r with
  | error e => rw [attach_error h]; rfl
  | ok u =>
      obtain ⟨ch, ha⟩ := attach_ok h
      rw [ha.supervisor]
      split
      · rename_i hs; rw [hs.1]
      · rfl

@[simp] theorem lock_failed (c : Client) (v : Invocation) (e : TransportError) (s : SupervisorId) :
    ((c.failed v e).supervisor s).lock = (c.supervisor s).lock := by
  unfold failed
  simp only
  split
  · exact lock_closeHeld c v.supervisor s
  · rfl

theorem Opens.lock {r : Except TransportError ChannelId} (h : Opens c m c' r) (s : SupervisorId) :
    (c'.supervisor s).lock = (c.supervisor s).lock := by
  cases h with
  | own => rw [supervisor_openChannel]
  | foreign r => rfl

theorem Fails.lock {a : Attempt α} {e : TransportError} (h : Fails c v m a c' e) (s : SupervisorId) :
    (c'.supervisor s).lock = (c.supervisor s).lock := by
  cases h with
  | unopened _ ho => exact ho.lock s
  | unattached _ ho ha => exact (lock_attach ha s).trans (ho.lock s)
  | acted => rfl

theorem Leads.lock {a : Option (Attempt α)} {q : Participant α} (h : Leads c v m a c' q) (s : SupervisorId) :
    (c'.supervisor s).lock =
      match q.phase with
      | .ended _ => if s = v.supervisor then (c.supervisor s).lock.leave v.id else (c.supervisor s).lock
      | _ => (c.supervisor s).lock := by
  cases h with
  | looked | rested | unheld | reuses => rfl
  | givenUp | succeeds => exact lock_left c v s
  | discards => exact (lock_closeHeld _ _ _).trans rfl
  | attaches _ ho ha _ => exact (lock_attach ha s).trans (ho.lock s)
  | orphans _ ho ha _ => rw [lock_left, lock_closeHeld, lock_attach ha, ho.lock]
  | throws hf _ => rw [lock_left, lock_failed, hf.lock]
  | suppresses hf _ => rw [lock_failed, hf.lock]

/-- An invocation that comes past the queue was past it before or owns the lock. -/
theorem Leads.granted {a : Option (Attempt α)} {q : Participant α} (h : Leads c v m a c' q)
    (hn : ∀ o, q.phase ≠ .ended o) (hq : q.invocation.stage ≠ .queued) :
    v.stage ≠ .queued ∨ (c.supervisor v.supervisor).lock.owner = some v.id := by
  cases h with
  | looked _ hs => exact .inl hs
  | rested => exact .inl hq
  | givenUp | orphans | throws | succeeds => exact absurd rfl (hn _)
  | unheld hb | discards hb | reuses hb =>
      cases hb with
      | granted _ hl => exact .inr hl
      | again hd => exact .inl (by simp [hd])
  | attaches hs => exact .inl (by simp [hs])
  | suppresses hf => exact .inl hf.ne_queued

theorem lock_perform? {d : Deed} (h : c.perform? d = some c') (s : SupervisorId) :
    (c'.supervisor s).lock = (c.supervisor s).lock := by
  rcases perform?_cases h with ⟨o, rfl, rfl⟩ | ⟨s', rfl, hs, rfl⟩ | ⟨t, rfl, rfl⟩ | ⟨hd, -, hs, -⟩
  · rw [supervisor_addSupervisor]
    split
    · rw [supervisor_of_le (by omega)]
    · rfl
  · unfold dispose
    split
    · rfl
    · rw [supervisor_record, lock_closeHeld, supervisor_modify]
      split
      · rename_i h; rw [h.1]
      · rfl
  · unfold cancel; split <;> rfl
  · simp only [supervisor, hs]

end Client

namespace Scene

variable {α : Type} {w w' : Scene α} {e : Event α} {i : InvocationId} {p q : Participant α}

def UnderWay (w : Scene α) (s : SupervisorId) (i : InvocationId) : Prop :=
  ∃ p, w.participants i = some p ∧ p.invocation.supervisor = s ∧ ∀ o, p.phase ≠ .ended o

structure Locking (w : Scene α) : Prop where
  orderly : ∀ s, (w.client.supervisor s).lock.Orderly
  members : ∀ s i, i ∈ (w.client.supervisor s).lock.members ↔ w.UnderWay s i
  owner : ∀ i p, w.participants i = some p → (∀ o, p.phase ≠ .ended o) → p.invocation.stage ≠ .queued →
    (w.client.supervisor p.invocation.supervisor).lock.owner = some i

/-! ## One step -/

theorem Locking.notMem (h : w.Locking) (hi : w.participants i = none) (s : SupervisorId) :
    i ∉ (w.client.supervisor s).lock.members := by
  intro hm
  obtain ⟨p, hp, -⟩ := (h.members s i).1 hm
  rw [hi] at hp
  cases hp

theorem underWay_put {c : Client} {ms : List (Mark α)} {s : SupervisorId} {j : InvocationId} :
    (w.put c i q ms).UnderWay s j ↔
      if j = i then q.invocation.supervisor = s ∧ ∀ o, q.phase ≠ .ended o else w.UnderWay s j := by
  unfold UnderWay put
  by_cases hj : j = i
  · simp [hj]
  · simp [hj]

/-- One participant changes, and his lock with him. -/
theorem Locking.put {c : Client} {ms : List (Mark α)} {f : Lock → Lock} (h : w.Locking)
    (hlock : ∀ s, (c.supervisor s).lock =
      if s = q.invocation.supervisor then f (w.client.supervisor s).lock else (w.client.supervisor s).lock)
    (horderly : (f (w.client.supervisor q.invocation.supervisor).lock).Orderly)
    (hmem : ∀ j, j ∈ (f (w.client.supervisor q.invocation.supervisor).lock).members ↔
      if j = i then ∀ o, q.phase ≠ .ended o else j ∈ (w.client.supervisor q.invocation.supervisor).lock.members)
    (hsame : ∀ s, s ≠ q.invocation.supervisor → ¬w.UnderWay s i)
    (howner : (∀ o, q.phase ≠ .ended o) → q.invocation.stage ≠ .queued →
      (f (w.client.supervisor q.invocation.supervisor).lock).owner = some i)
    (hothers : ∀ j, j ≠ i → (w.client.supervisor q.invocation.supervisor).lock.owner = some j →
      (f (w.client.supervisor q.invocation.supervisor).lock).owner = some j) :
    (w.put c i q ms).Locking where
  orderly s := by
    simp only [Scene.put, hlock]
    split
    · rename_i hs; rw [hs]; exact horderly
    · exact h.orderly s
  members s j := by
    rw [underWay_put]
    simp only [Scene.put, hlock]
    by_cases hs : s = q.invocation.supervisor
    · rw [if_pos hs, hs, hmem, h.members]
      by_cases hj : j = i
      · simp [hj]
      · simp [hj]
    · rw [if_neg hs, h.members]
      by_cases hj : j = i
      · rw [if_pos hj, hj]
        exact iff_of_false (hsame s hs) (fun hq => hs hq.1.symm)
      · rw [if_neg hj]
  owner j p hp hn hq := by
    simp only [Scene.put] at hp ⊢
    rw [hlock]
    split at hp
    · rename_i hj
      cases hp
      rw [if_pos rfl, hj]
      exact howner hn hq
    · rename_i hj
      have ho := h.owner j p hp hn hq
      split
      · rename_i hs
        rw [hs] at ho ⊢
        exact hothers j hj ho
      · exact ho

theorem Locking.begin {s : SupervisorId} {t : Option Token} {c : Client} {ms : List (Mark α)} (h : w.Locking)
    (hs : s.number < w.client.supervisors.length) (hi : w.participants i = none)
    (hb : w.client.Begun (w.client.fresh i s t) c q) : (w.put c i q ms).Locking := by
  have hnot := h.notMem hi
  have hsame : ∀ s, ¬w.UnderWay s i := fun s hu => hnot s ((h.members s i).2 hu)
  cases hb with
  | late hd =>
      refine h.put (f := id) (by simp) (h.orderly _) (fun j => ?_) (fun s _ => hsame s)
        (fun hn => absurd rfl (hn _)) (fun _ _ => id)
      by_cases hj : j = i
      · simpa [hj] using hnot _
      · simp [hj]
  | cancelled hd ht hc =>
      refine h.put (f := (Lock.leave · i)) (fun s => Client.lock_left _ _ s) ((h.orderly _).leave i)
        (fun j => ?_) (fun s _ => hsame s) (fun hn => absurd rfl (hn _))
        (fun j hj ho => Lock.owner_leave ho hj)
      rw [Lock.mem_members_leave (h.orderly _)]
      by_cases hj : j = i
      · simp [hj]
      · simp [hj]
  | joins hd hi' =>
      refine h.put (f := (Lock.join · i)) (fun s => Client.lock_joined hs s) ((h.orderly _).join (hnot _))
        (fun j => ?_) (fun s _ => hsame s) (fun _ hq => absurd rfl hq)
        (fun j hj ho => Lock.owner_join ho i)
      rw [Lock.members_join (h.orderly _) (hnot _), List.mem_append, List.mem_singleton]
      by_cases hj : j = i
      · simp [hj]
      · simp [hj]

theorem Locking.move {m : Move α} {c : Client} {ms : List (Mark α)} (h : w.Locking) (hr : w.Reachable)
    (hi : w.participants i = some p) (hm : w.client.move? p m = some (c, q)) : (w.put c i q ms).Locking := by
  have hn := Client.phase_of_move? hm
  have hm := Client.leads_of_move? hm
  have hlock := hm.lock
  have hid := (hr.known hi).id
  have hsup := hm.same.2.1
  have hmem : i ∈ (w.client.supervisor p.invocation.supervisor).lock.members := (h.members _ i).2 ⟨p, hi, rfl, hn⟩
  have hsame : ∀ s, s ≠ q.invocation.supervisor → ¬w.UnderWay s i := by
    rintro s hs ⟨p', hp', rfl, -⟩
    rw [hi] at hp'
    cases hp'
    exact hs hsup.symm
  rw [hid] at hlock
  by_cases hq : ∃ o, q.phase = .ended o
  · obtain ⟨o, ho⟩ := hq
    simp only [ho] at hlock
    rw [← hsup] at hlock
    refine h.put (f := (Lock.leave · i)) hlock ((h.orderly _).leave i) (fun j => ?_) hsame
      (fun hn => absurd ho (hn o)) (fun j hj ho => Lock.owner_leave ho hj)
    rw [Lock.mem_members_leave (h.orderly _)]
    by_cases hj : j = i
    · simp [hj, ho]
    · simp [hj]
  · -- The invocation goes on, so no lock changes; whether it is past the queue is settled by `granted`.
    have hq : ∀ o, q.phase ≠ .ended o := fun o ho => hq ⟨o, ho⟩
    have hlock : ∀ s, (c.supervisor s).lock = (w.client.supervisor s).lock := by
      intro s
      rw [hlock s]
      split
      · rename_i o ho; exact absurd ho (hq o)
      · rfl
    refine h.put (f := id) (by simpa using hlock) (h.orderly _) (fun j => ?_) hsame (fun _ hs => ?_)
      (fun _ _ => id)
    · by_cases hj : j = i
      · rw [if_pos hj, hj, hsup]
        exact iff_of_true hmem hq
      · simp [hj]
    · rw [hsup]
      rcases hm.granted hq hs with hs | ho
      · exact h.owner i p hi hn hs
      · rw [hid] at ho; exact ho

theorem Locking.step (h : w.Locking) (hr : w.Reachable) (hs : w.Steps e w') : w'.Locking := by
  cases hs with
  | deed hf hd =>
      have hlock := Client.lock_perform? hd
      exact ⟨fun s => by rw [hlock]; exact h.orderly s, fun s i => by rw [hlock]; exact h.members s i,
        fun i p hp hn hq => by rw [hlock]; exact h.owner i p hp hn hq⟩
  | begin hl hi hb => exact h.begin hl hi hb
  | move hf hi hm => exact h.move hr hi hm

/-! ## Runs -/

theorem Reachable.locking (h : w.Reachable) : w.Locking := by
  induction h with
  | start =>
      refine ⟨fun s => ?_, fun s i => ?_, fun i p hp => by cases hp⟩
      · exact Lock.orderly_empty
      · apply iff_of_false (by simp [Scene.start, Client.supervisor, Lock.members])
        rintro ⟨p, hp, -⟩
        cases hp
  | step hr hs ih => exact ih.step hr (steps_of_step hs)

/-- An invocation under way is in the lock already. -/
theorem Reachable.joined_eq (h : w.Reachable) (hp : w.participants i = some p) (hn : ∀ o, p.phase ≠ .ended o) :
    w.client.joined p.invocation = w.client := by
  have hl := h.locking
  have hm := (hl.members p.invocation.supervisor i).2 ⟨p, hp, rfl, hn⟩
  apply Client.modify_of_fixed
  rw [(h.known hp).id, Lock.join_of_mem (hl.orderly _) hm]

/-- Two invocations that are past the queue of one lock are the same. -/
theorem Reachable.eq_of_past_queue {j : InvocationId} {p' : Participant α} (h : w.Reachable)
    (hp : w.participants i = some p) (hp' : w.participants j = some p')
    (hs : p'.invocation.supervisor = p.invocation.supervisor) (hn : ∀ o, p.phase ≠ .ended o)
    (hn' : ∀ o, p'.phase ≠ .ended o) (hq : p.invocation.stage ≠ .queued) (hq' : p'.invocation.stage ≠ .queued) :
    j = i := by
  have ho := h.locking.owner i p hp hn hq
  have ho' := h.locking.owner j p' hp' hn' hq'
  rw [hs, ho] at ho'
  exact (Option.some.inj ho').symm

end Scene

end BrokerClient
