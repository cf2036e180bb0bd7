import BrokerClient.Proofs.Scene.Moves

/-!
# What moves leave alone

Options, disposals and cancellations change by deeds only: a move keeps them all (`Leads.keeps`), and a deed
never takes back a disposal or a cancellation (`Grows`).
-/
namespace BrokerClient

namespace Client

variable {α : Type} {c c' c'' : Client} {s : SupervisorId}

/-! ## Moves -/

/-- The supervisors with their options and disposals, and the cancellations, are the same. -/
structure Keeps (c c' : Client) : Prop where
  length : c'.supervisors.length = c.supervisors.length
  options : ∀ s, (c'.supervisor s).options = (c.supervisor s).options
  disposed : ∀ s, c'.isDisposed s = c.isDisposed s
  cancelled : c'.cancelled = c.cancelled

namespace Keeps

theorem refl (c : Client) : Keeps c c :=
  ⟨rfl, fun _ => rfl, fun _ => rfl, rfl⟩

theorem trans (h : Keeps c c') (h' : Keeps c' c'') : Keeps c c'' where
  length := h'.length.trans h.length
  options s := (h'.options s).trans (h.options s)
  disposed s := (h'.disposed s).trans (h.disposed s)
  cancelled := h'.cancelled.trans h.cancelled

theorem of_eq (hs : c'.supervisors = c.supervisors) (hc : c'.cancelled = c.cancelled) : Keeps c c' where
  length := by rw [hs]
  options s := by simp only [supervisor, hs]
  disposed s := by simp only [isDisposed, supervisor, hs]
  cancelled := hc

theorem of_modify {f : Supervisor → Supervisor} (hf : ∀ s, (f s).options = s.options ∧ (f s).disposed = s.disposed)
    (hs : c'.supervisors = c.supervisors.modify s.number f) (hc : c'.cancelled = c.cancelled) :
    Keeps c c' := by
  have heq : ∀ s', c'.supervisor s' = (c.modify s f).supervisor s' := by
    intro s'; simp only [supervisor, modify, hs]
  have hboth : ∀ s', (c'.supervisor s').options = (c.supervisor s').options ∧
      (c'.supervisor s').disposed = (c.supervisor s').disposed := by
    intro s'
    rw [heq, supervisor_modify]
    split
    · rename_i h; rw [h.1]; exact hf _
    · exact ⟨rfl, rfl⟩
  exact ⟨by rw [hs]; simp, fun s' => (hboth s').1, fun s' => (hboth s').2, hc⟩

theorem modify {f : Supervisor → Supervisor} (hf : ∀ s, (f s).options = s.options ∧ (f s).disposed = s.disposed) :
    Keeps c (c.modify s f) :=
  of_modify hf rfl rfl

theorem record (r : Log.Record) : Keeps c (c.record r) :=
  of_eq rfl rfl

theorem close (id : ChannelId) : Keeps c (c.close id) :=
  of_eq rfl rfl

theorem left (v : Invocation) : Keeps c (c.left v) :=
  modify fun _ => ⟨rfl, rfl⟩

theorem joined (v : Invocation) : Keeps c (c.joined v) :=
  modify fun _ => ⟨rfl, rfl⟩

theorem closeHeld (s : SupervisorId) : Keeps c (c.closeHeld s) := by
  have hboth : ∀ s', ((c.closeHeld s).supervisor s').options = (c.supervisor s').options ∧
      ((c.closeHeld s).supervisor s').disposed = (c.supervisor s').disposed := by
    intro s'
    rw [supervisor_closeHeld]
    split
    · rename_i h; rw [h]; exact ⟨rfl, rfl⟩
    · exact ⟨rfl, rfl⟩
  exact ⟨length_closeHeld c s, fun s' => (hboth s').1, fun s' => (hboth s').2, cancelled_closeHeld c s⟩

theorem attach {id : ChannelId} {r : Except TransportError Unit} (h : c.attach s id = (c', r)) :
    Keeps c c' := by
  cases r with
  | error e => rw [attach_error h]; exact close id
  | ok u =>
      obtain ⟨ch, ha⟩ := attach_ok h
      exact of_modify (by intro _; exact ⟨rfl, rfl⟩) ha.supervisors ha.cancelled

theorem openChannel (c : Client) : Keeps c c.openChannel.1 := by
  rcases openChannel_cases c with ⟨e, rest, -, h⟩ | ⟨id, -, h⟩ <;> (rw [h]; exact of_eq rfl rfl)

theorem failed (v : Invocation) (e : TransportError) : Keeps c (c.failed v e) := by
  unfold Client.failed
  simp only
  split
  · exact (closeHeld v.supervisor).trans (record _)
  · exact record _

end Keeps

variable {v : Invocation} {m : Move α}

theorem Opens.keeps {r : Except TransportError ChannelId} (h : Opens c m c' r) : Keeps c c' := by
  cases h with
  | own => exact .openChannel c
  | foreign r => exact .refl c

theorem Fails.keeps {a : Attempt α} {e : TransportError} (h : Fails c v m a c' e) : Keeps c c' := by
  cases h with
  | unopened _ ho => exact ho.keeps
  | unattached _ ho ha => exact ho.keeps.trans (.attach ha)
  | acted => exact .refl c

theorem Leads.keeps {a : Option (Attempt α)} {q : Participant α} (h : Leads c v m a c' q) : Keeps c c' := by
  cases h with
  | looked | rested | unheld | reuses => exact .refl c
  | givenUp | succeeds => exact .left v
  | discards => exact (Keeps.record _).trans (.closeHeld _)
  | attaches _ ho ha _ => exact ho.keeps.trans (.attach ha)
  | orphans _ ho ha _ => exact (ho.keeps.trans (.attach ha)).trans ((Keeps.closeHeld _).trans (.left v))
  | throws hf _ => exact (hf.keeps.trans (.failed v _)).trans (.left v)
  | suppresses hf _ => exact hf.keeps.trans (.failed v _)

theorem Leads.same {a : Option (Attempt α)} {q : Participant α} (h : Leads c v m a c' q) :
    q.invocation.id = v.id ∧ q.invocation.supervisor = v.supervisor ∧ q.invocation.token = v.token := by
  cases h <;> exact ⟨rfl, rfl, rfl⟩

/-- Nobody comes back into the queue. -/
theorem Leads.ne_queued {a : Option (Attempt α)} {q : Participant α} (h : Leads c v m a c' q)
    (hn : ∀ o, q.phase ≠ .ended o) (hm : m ≠ .rest) : q.invocation.stage ≠ .queued := by
  cases h with
  | looked _ hq => exact hq
  | rested hr => exact absurd hr hm
  | unheld | discards | reuses | attaches | suppresses => simp
  | givenUp | orphans | throws | succeeds => exact absurd rfl (hn _)

/-! ## Deeds -/

/-- Supervisors keep their options, and disposals and cancellations stay. -/
structure Grows (c c' : Client) : Prop where
  length : c.supervisors.length ≤ c'.supervisors.length
  options : ∀ s : SupervisorId, s.number < c.supervisors.length →
    (c'.supervisor s).options = (c.supervisor s).options
  disposed : ∀ s, c.isDisposed s = true → c'.isDisposed s = true
  cancelled : ∀ t ∈ c.cancelled, t ∈ c'.cancelled

theorem Keeps.grows (h : Keeps c c') : Grows c c' where
  length := Nat.le_of_eq h.length.symm
  options s _ := h.options s
  disposed s hs := (h.disposed s).trans hs
  cancelled t ht := by rwa [h.cancelled]

namespace Grows

theorem refl (c : Client) : Grows c c :=
  (Keeps.refl c).grows

theorem trans (h : Grows c c') (h' : Grows c' c'') : Grows c c'' where
  length := Nat.le_trans h.length h'.length
  options s hs := (h'.options s (Nat.lt_of_lt_of_le hs h.length)).trans (h.options s hs)
  disposed s hs := h'.disposed s (h.disposed s hs)
  cancelled t ht := h'.cancelled t (h.cancelled t ht)

theorem addSupervisor (o : Options) : Grows c (c.addSupervisor o).1 := by
  refine ⟨by simp [Client.addSupervisor], ?_, ?_, fun t ht => ht⟩
  · intro s hs
    rw [supervisor_addSupervisor, if_neg (by omega)]
  · intro s hs
    rw [isDisposed, supervisor_addSupervisor]
    split
    · rw [isDisposed, supervisor_of_le (by omega)] at hs
      cases hs
    · exact hs

theorem dispose (s : SupervisorId) : Grows c (c.dispose s) := by
  unfold Client.dispose
  split
  · exact refl c
  · refine trans ?_ ((Keeps.closeHeld s).trans (.record _)).grows
    have hboth : ∀ s', ((c.modify s ({ · with disposed := true })).supervisor s').options =
        (c.supervisor s').options ∧ (c.isDisposed s' = true →
          (c.modify s ({ · with disposed := true })).isDisposed s' = true) := by
      intro s'
      rw [isDisposed, isDisposed, supervisor_modify]
      split
      · rename_i h; rw [h.1]; exact ⟨rfl, fun _ => rfl⟩
      · exact ⟨rfl, id⟩
    exact ⟨by simp, fun s' _ => (hboth s').1, fun s' => (hboth s').2, fun t ht => ht⟩

theorem cancel (t : Token) : Grows c (c.cancel t) := by
  unfold Client.cancel
  split
  · exact refl c
  · exact ⟨Nat.le_refl _, fun _ _ => rfl, fun _ => id, fun t' ht' => List.mem_cons_of_mem t ht'⟩

end Grows

/-- A deed adds a supervisor, disposes of one, cancels, or leaves supervisors and cancellations alone. -/
theorem perform?_cases {d : Deed} (h : c.perform? d = some c') :
    (∃ o, d = .supervise o ∧ c' = (c.addSupervisor o).1) ∨
    (∃ s, d = .dispose s ∧ s.number < c.supervisors.length ∧ c' = c.dispose s) ∨
    (∃ t, d = .cancel t ∧ c' = c.cancel t) ∨
    ((∀ s, d ≠ .dispose s) ∧ (∀ t, d ≠ .cancel t) ∧
      c'.supervisors = c.supervisors ∧ c'.cancelled = c.cancelled) := by
  cases d with
  | supervise o => cases h; exact .inl ⟨o, rfl, rfl⟩
  | dispose s =>
      simp only [perform?] at h
      split at h
      · rename_i hs; cases h; exact .inr (.inl ⟨s, rfl, hs, rfl⟩)
      · cases h
  | cancel t => cases h; exact .inr (.inr (.inl ⟨t, rfl, rfl⟩))
  | openChannel =>
      cases h
      refine .inr (.inr (.inr ⟨by simp, by simp, ?_⟩))
      rcases openChannel_cases c with ⟨e, rest, -, h⟩ | ⟨id, -, h⟩ <;> (rw [h]; exact ⟨rfl, rfl⟩)
  | confirmSelect ch =>
      simp only [perform?] at h
      cases hk : c.confirmSelect ch with
      | error e => rw [hk] at h; cases h
      | ok c₁ =>
          rw [hk] at h
          cases h
          obtain ⟨_, -, -, rfl⟩ := confirmSelect_ok hk
          exact .inr (.inr (.inr ⟨by simp, by simp, rfl, rfl⟩))
  | failNext | listen | listenRecovery =>
      cases h; exact .inr (.inr (.inr ⟨by simp, by simp, rfl, rfl⟩))
  | signal | close =>
      simp only [perform?] at h
      split at h
      · cases h; exact .inr (.inr (.inr ⟨by simp, by simp, rfl, rfl⟩))
      · cases h
  | unlisten | unlistenRecovery =>
      simp only [perform?] at h
      split at h
      · cases h
      · cases h; exact .inr (.inr (.inr ⟨by simp, by simp, rfl, rfl⟩))

theorem Grows.perform? {d : Deed} (h : c.perform? d = some c') : Grows c c' := by
  rcases perform?_cases h with ⟨o, -, rfl⟩ | ⟨s, -, -, rfl⟩ | ⟨t, -, rfl⟩ | ⟨-, -, hs, hc⟩
  · exact .addSupervisor o
  · exact .dispose s
  · exact .cancel t
  · exact (Keeps.of_eq hs hc).grows

theorem isDisposed_dispose (hs : s.number < c.supervisors.length) (s' : SupervisorId) :
    (c.dispose s).isDisposed s' = true ↔ c.isDisposed s' = true ∨ s' = s := by
  unfold dispose
  split
  · rename_i hd
    constructor
    · exact .inl
    · rintro (h | rfl)
      · exact h
      · exact hd
  · rw [((Keeps.closeHeld s).trans (.record _)).disposed, isDisposed, supervisor_modify]
    by_cases h : s' = s
    · simp [h, hs]
    · simp [h, isDisposed]

theorem isDisposed_perform? {d : Deed} (h : c.perform? d = some c') (s : SupervisorId) :
    c'.isDisposed s = true ↔ c.isDisposed s = true ∨ d = .dispose s := by
  rcases perform?_cases h with ⟨o, rfl, rfl⟩ | ⟨s', rfl, hs, rfl⟩ | ⟨t, rfl, rfl⟩ | ⟨hd, -, hs, -⟩
  · have : (c.addSupervisor o).1.isDisposed s = c.isDisposed s := by
      rw [isDisposed, supervisor_addSupervisor]
      split
      · rw [isDisposed, supervisor_of_le (by omega)]
      · rfl
    simp [this]
  · rw [isDisposed_dispose hs, Deed.dispose.injEq, eq_comm (a := s)]
  · have : (c.cancel t).isDisposed s = c.isDisposed s := by unfold cancel; split <;> rfl
    simp [this]
  · simp only [isDisposed, supervisor, hs, hd, or_false]

theorem mem_cancelled_perform? {d : Deed} (h : c.perform? d = some c') (t : Token) :
    t ∈ c'.cancelled ↔ t ∈ c.cancelled ∨ d = .cancel t := by
  rcases perform?_cases h with ⟨o, rfl, rfl⟩ | ⟨s', rfl, hs, rfl⟩ | ⟨t', rfl, rfl⟩ | ⟨-, ht, -, hc⟩
  · simp [addSupervisor]
  · have : (c.dispose s').cancelled = c.cancelled := by
      unfold dispose; split
      · rfl
      · exact cancelled_closeHeld _ _
    simp [this]
  · unfold cancel
    split
    · rename_i hm
      constructor
      · exact .inl
      · rintro (h | h)
        · exact h
        · cases h; exact hm
    · simp only [List.mem_cons, Deed.cancel.injEq]
      constructor
      · rintro (h | h)
        · exact .inr h.symm
        · exact .inl h
      · rintro (h | h)
        · exact .inr h
        · exact .inl h.symm
  · simp only [hc, ht, or_false]

end Client

end BrokerClient
