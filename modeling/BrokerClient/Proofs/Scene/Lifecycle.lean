import BrokerClient.Proofs.Scene.Continuity
import BrokerClient.Proofs.Scene.Hearing

/-!
# The life of a supervisor

The state of a supervisor is told by what was done: whether it was disposed of, whether it ever attached a channel, and
whether it has released the one that it attached (`Lives`). So it goes one way only: nobody gets back to where no
channel was attached, and nobody gets away from a disposal (`lifecycle`).
-/
namespace BrokerClient

/-! ## States -/

namespace Supervisor

variable {x x' : Supervisor}

theorem state_eq_disposed : x.state = .disposed ↔ x.disposed = true := by
  unfold state
  split
  · rename_i hd; simp [hd]
  · rename_i hd; split <;> (try split) <;> simp [hd]

theorem state_eq_active : x.state = .active ↔ x.disposed = false ∧ x.channel?.isSome = true := by
  rw [channel?, Option.isSome_map]
  unfold state
  cases x.disposed <;> cases x.held <;> cases x.everHeld <;> simp

theorem state_eq_recreating :
    x.state = .recreating ↔ x.disposed = false ∧ x.channel? = none ∧ x.everHeld = true := by
  rw [channel?, Option.map_eq_none_iff]
  unfold state
  cases x.disposed <;> cases x.held <;> cases x.everHeld <;> simp

theorem state_eq_uninitialized :
    x.state = .uninitialized ↔ x.disposed = false ∧ x.channel? = none ∧ x.everHeld = false := by
  rw [channel?, Option.map_eq_none_iff]
  unfold state
  cases x.disposed <;> cases x.held <;> cases x.everHeld <;> simp

/-- The supervisor has come to hold nothing new. -/
structure Sinks (x x' : Supervisor) : Prop where
  everHeld : x'.everHeld = x.everHeld
  held : x'.held = x.held ∨ x'.held = none

namespace Sinks

theorem of_eq (he : x'.everHeld = x.everHeld) (hh : x'.held = x.held) : Sinks x x' :=
  ⟨he, .inl hh⟩

theorem refl (x : Supervisor) : Sinks x x :=
  ⟨rfl, .inl rfl⟩

theorem trans {x'' : Supervisor} (h : Sinks x x') (h' : Sinks x' x'') : Sinks x x'' where
  everHeld := h'.everHeld.trans h.everHeld
  held := h'.held.elim (fun hs => h.held.imp hs.trans hs.trans) .inr

theorem state (h : Sinks x x') (hd : x'.disposed = x.disposed) (hever : x.held.isSome = true → x.everHeld = true) :
    x'.state = x.state ∨ (x.state = .active ∧ x'.state = .recreating) := by
  rcases h.held with hh | hh
  · left
    simp only [Supervisor.state, hd, hh, h.everHeld]
  · cases hx : x.held with
    | none =>
        left
        simp only [Supervisor.state, hd, hh, hx, h.everHeld]
    | some k =>
        have he : x.everHeld = true := hever (by rw [hx]; rfl)
        cases hdis : x.disposed with
        | true => simp [Supervisor.state, hd, hdis]
        | false => simp [Supervisor.state, hd, hdis, hh, hx, h.everHeld, he]

end Sinks

end Supervisor

/-! ## Histories of one supervisor -/

namespace History

variable {h h' : History} {s : SupervisorId} {id : ChannelId} {b : Bool}

/-- The supervisor has attached a channel. -/
def Attached (h : History) (s : SupervisorId) : Prop :=
  ∃ id b, (id, .held s b) ∈ h

/-- The supervisor has attached the channel, and has not released it. -/
def Holds (h : History) (s : SupervisorId) (id : ChannelId) : Prop :=
  ∃ b, (s, b) ∈ ((Ledger.ofHistory h).standing id).holders

theorem not_attached_nil (s : SupervisorId) : ¬ Attached [] s := by
  rintro ⟨id, b, hx⟩
  cases hx

theorem attached_append : (h ++ h').Attached s ↔ h.Attached s ∨ h'.Attached s := by
  simp only [Attached, List.mem_append, exists_or]

theorem not_attached_ofRelease (c : Client) (s s' : SupervisorId) : ¬ (ofRelease c s).Attached s' := by
  rintro ⟨id, b, hx⟩
  obtain ⟨id', hx⟩ := released_of_mem_ofRelease hx
  cases hx

theorem not_attached_ofDeed (c : Client) (d : Deed) (s : SupervisorId) : ¬ (ofDeed c d).Attached s := by
  cases d with
  | dispose s' =>
      simp only [ofDeed]
      split
      · exact not_attached_nil s
      · exact not_attached_ofRelease c s' s
  | signal | close => rintro ⟨id, b, hx⟩; cases List.mem_singleton.1 hx
  | _ => exact not_attached_nil s

theorem mem_holders_enter {r : Ledger} {x : ChannelId × Act} (hx : (s, b) ∈ ((r.enter x).standing id).holders) :
    (s, b) ∈ (r.standing id).holders ∨ x = (id, .held s b) := by
  obtain ⟨j, a⟩ := x
  simp only [Ledger.enter] at hx
  split at hx
  · rename_i hj
    subst hj
    cases a with
    | held s' b' =>
        rcases List.mem_append.1 hx with hx | hx
        · exact .inl hx
        · cases List.mem_singleton.1 hx
          exact .inr rfl
    | released s' => exact .inl (List.mem_filter.1 hx).1
    | refused | closed => exact .inl hx
    | raised g => cases g <;> exact .inl hx
  · exact .inl hx

theorem mem_holders_enterAll {r : Ledger} (hx : (s, b) ∈ ((r.enterAll h).standing id).holders) :
    (s, b) ∈ (r.standing id).holders ∨ (id, .held s b) ∈ h := by
  induction h generalizing r with
  | nil => exact .inl hx
  | cons x h ih =>
      rcases ih (r := r.enter x) hx with hx | hx
      · rcases mem_holders_enter hx with hx | rfl
        · exact .inl hx
        · exact .inr List.mem_cons_self
      · exact .inr (List.mem_cons_of_mem x hx)

theorem Holds.attached (hh : h.Holds s id) : h.Attached s := by
  obtain ⟨b, hb⟩ := hh
  rcases mem_holders_enterAll hb with hx | hx
  · cases hx
  · exact ⟨id, b, hx⟩

end History

namespace Client

variable {α : Type} {c c' : Client} {h : History} {s : SupervisorId} {v : Invocation} {m : Move α} {q : Participant α}

/-! ## What moves and deeds do to a supervisor -/

theorem sinks_left (c : Client) (v : Invocation) (s : SupervisorId) :
    (c.supervisor s).Sinks ((c.left v).supervisor s) := by
  rw [left, supervisor_modify_eq _ _ _ rfl]
  split
  · rename_i hs; subst hs; exact .of_eq rfl rfl
  · exact .refl _

theorem sinks_closeHeld (c : Client) (s s' : SupervisorId) :
    (c.supervisor s').Sinks ((c.closeHeld s).supervisor s') := by
  rw [supervisor_closeHeld]
  split
  · rename_i hs; subst hs; exact ⟨rfl, .inr rfl⟩
  · exact .refl _

theorem sinks_failed (c : Client) (v : Invocation) (e : TransportError) (s : SupervisorId) :
    (c.supervisor s).Sinks ((c.failed v e).supervisor s) := by
  unfold failed
  simp only [supervisor_record]
  split
  · exact sinks_closeHeld c _ s
  · exact .refl _

theorem sinks_joined (c : Client) (v : Invocation) (s : SupervisorId) :
    (c.supervisor s).Sinks ((c.joined v).supervisor s) := by
  rw [joined, supervisor_modify]
  split
  · rename_i hs; rw [hs.1]; exact .of_eq rfl rfl
  · exact .refl _

theorem Begun.sinks (h : Begun c v c' q) (s : SupervisorId) : (c.supervisor s).Sinks (c'.supervisor s) := by
  cases h with
  | late => exact .refl _
  | cancelled => exact sinks_left c v s
  | joins => exact sinks_joined c v s

theorem sinks_dispose (c : Client) (s s' : SupervisorId) : (c.supervisor s').Sinks ((c.dispose s).supervisor s') := by
  unfold dispose
  split
  · exact .refl _
  · refine .trans ?_ (sinks_closeHeld _ s s')
    rw [supervisor_modify]
    split
    · rename_i hs; rw [hs.1]; exact .of_eq rfl rfl
    · exact .refl _

theorem sinks_perform? {d : Deed} (h : c.perform? d = some c') (s : SupervisorId) :
    (c.supervisor s).Sinks (c'.supervisor s) := by
  rcases perform?_cases h with ⟨o, -, rfl⟩ | ⟨s', -, -, rfl⟩ | ⟨t, -, rfl⟩ | ⟨-, -, hs, -⟩
  · rw [supervisor_addSupervisor]
    split
    · rw [supervisor_of_le (by omega)]
      exact .of_eq rfl rfl
    · exact .refl _
  · exact sinks_dispose c s' s
  · unfold cancel
    split <;> exact .refl _
  · simp only [supervisor, hs]
    exact .refl _

/-- The supervisor attaches the channel that an opening gives it. -/
def Attaching (c : Client) (v : Invocation) (m : Move α) (id : ChannelId) : Prop :=
  ∃ c₀ c₁, Opens c m c₀ (.ok id) ∧ c₀.attach v.supervisor id = (c₁, .ok ())

/-- Only who attaches a channel comes to hold it, and calls its action unless there was a disposal in the meantime. -/
theorem Leads.sinks_or_attaches {a : Option (Attempt α)} (h : Leads c v m a c' q)
    (hs : v.supervisor.number < c.supervisors.length) (s : SupervisorId) :
    (c.supervisor s).Sinks (c'.supervisor s) ∨ s = v.supervisor ∧ ∃ id, c.Attaching v m id ∧
      ((c'.isDisposed s = true ∧ (c'.supervisor s).held = none) ∨
        q.reached = [.called v.id id] ∧ (c'.supervisor s).channel? = some id) := by
  have hattach {c₀ c₁ : Client} {id : ChannelId} {r : Except TransportError ChannelId} (ho : Opens c m c₀ r)
      (ha : c₀.attach v.supervisor id = (c₁, .ok ())) (hne : s ≠ v.supervisor) :
      c₁.supervisor s = c.supervisor s := by
    obtain ⟨ch, ha⟩ := attach_ok ha
    rw [ha.supervisor, if_neg (fun hm => hne hm.1), ho.supervisor]
  cases h with
  | looked | rested | unheld | reuses => exact .inl (.refl _)
  | givenUp | succeeds => exact .inl (sinks_left c v s)
  | discards =>
      rw [discarded]
      exact .inl (sinks_closeHeld (c.record _) v.supervisor s)
  | throws hf => exact .inl (.trans (hf.supervisor s ▸ sinks_failed _ v _ s) (sinks_left ..))
  | suppresses hf => exact .inl (hf.supervisor s ▸ sinks_failed _ v _ s)
  | @attaches c₀ c' id hv ho ha hd =>
      by_cases hsv : s = v.supervisor
      · subst hsv
        refine .inr ⟨rfl, id, ⟨c₀, c', ho, ha⟩, .inr ⟨rfl, ?_⟩⟩
        obtain ⟨ch, hat⟩ := attach_ok ha
        rw [Supervisor.channel?, hat.supervisor, if_pos ⟨rfl, by rw [ho.keeps.length]; exact hs⟩]
        exact congrArg some (Connection.id_of_channel? hat.known)
      · exact .inl (hattach ho ha hsv ▸ .refl _)
  | @orphans c₀ c' id hv ho ha hd =>
      by_cases hsv : s = v.supervisor
      · subst hsv
        refine .inr ⟨rfl, id, ⟨c₀, c', ho, ha⟩, .inl ⟨?_, ?_⟩⟩
        · exact (((Keeps.closeHeld _).trans (.left v)).disposed _).trans hd
        · rw [held_left, held_closeHeld, if_pos rfl]
      · exact .inl (hattach ho ha hsv ▸ (sinks_closeHeld ..).trans (sinks_left ..))

theorem state_left (c : Client) (v : Invocation) (s : SupervisorId) :
    ((c.left v).supervisor s).state = (c.supervisor s).state := by
  rw [left, supervisor_modify_eq _ _ _ rfl]
  split
  · rename_i hs; rw [hs]; rfl
  · rfl

/-- A failure of a supervisor that holds nothing is only reported. -/
theorem failed_of_none (hn : (c.supervisor v.supervisor).held = none) (e : TransportError) :
    ∃ r, c.failed v e = c.record r := by
  unfold failed
  rw [closeHeld_of_none hn]
  simp only [ite_self]
  exact ⟨_, rfl⟩

/-- A channel that is not opened or not attached leaves all supervisors in their states. -/
theorem Leads.state_of_unattached {a : Attempt α} (h : Leads c v m (some a) c' q) (ha : a.isAction = false)
    (hn : v.stage = .opening → (c.supervisor v.supervisor).held = none) (s : SupervisorId) :
    (c'.supervisor s).state = (c.supervisor s).state := by
  have hfailed {c₁ : Client} {e : TransportError} (hf : Fails c v m a c₁ e) :
      (c₁.failed v e).supervisor s = c.supervisor s := by
    have hopening : v.stage = .opening := by
      cases hf with
      | unopened hv | unattached hv => exact hv
      | acted => cases ha
    obtain ⟨r, hr⟩ := failed_of_none (c := c₁) (v := v) (by rw [hf.supervisor]; exact hn hopening) e
    rw [hr, supervisor_record, hf.supervisor]
  cases h with
  | throws hf => rw [state_left, hfailed hf]
  | suppresses hf => rw [hfailed hf]
  | succeeds => cases ha

/-! ## Attachments are remembered -/

/-- A supervisor comes to have held a channel just by the attachments in the history. -/
def Remembers (c : Client) (h : History) (c' : Client) : Prop :=
  ∀ s, (c'.supervisor s).everHeld = true ↔ (c.supervisor s).everHeld = true ∨ h.Attached s

theorem remembers_of_sinks (hs : ∀ s, (c.supervisor s).Sinks (c'.supervisor s)) (hn : ∀ s, ¬ h.Attached s) :
    Remembers c h c' :=
  fun s => by rw [(hs s).everHeld, or_iff_left (hn s)]

theorem remembers_attach {id : ChannelId} {r : Except TransportError Unit} (hs : s.number < c.supervisors.length)
    (ha : c.attach s id = (c', r)) : Remembers c (.ofAttach c s id) c' := by
  unfold History.ofAttach
  rw [ha]
  cases r with
  | error e =>
      rw [attach_error ha]
      refine remembers_of_sinks (fun s => .refl _) fun s' => ?_
      rintro ⟨id', b, hx⟩
      simp only at hx
      split at hx
      · cases List.mem_singleton.1 hx
      · cases hx
  | ok u =>
      intro s'
      obtain ⟨ch, hat⟩ := attach_ok ha
      have hattached : History.Attached [(id, .held s (c.supervisor s).options.confirms)] s' ↔ s' = s := by
        simp [History.Attached]
      rw [hat.supervisor, hattached]
      by_cases hss : s' = s
      · simp [hss, hs]
      · simp [hss]

theorem remembers_composes : Composes (fun _ _ => True) Remembers where
  refl c := remembers_of_sinks (fun _ => .refl _) History.not_attached_nil
  trans hf hf' s := by rw [hf' s, hf s, History.attached_append, or_assoc]
  left c v := remembers_of_sinks (sinks_left c v) History.not_attached_nil
  record _ _ _ := remembers_of_sinks (fun _ => .refl _) History.not_attached_nil
  openChannel c := remembers_of_sinks (fun s => supervisor_openChannel c s ▸ .refl _) History.not_attached_nil
  release c s := remembers_of_sinks (sinks_closeHeld c s) (History.not_attached_ofRelease c s)
  attach _ hs _ ha := remembers_attach hs ha

end Client

namespace Scene

variable {α : Type} {w w' : Scene α} {e : Event α} {s : SupervisorId}

theorem remembers_of_step (hr : w.Reachable) (h : w.step e = some w') : w.client.Remembers (w.acts e) w'.client := by
  cases steps_of_step h with
  | deed hf hd => exact Client.remembers_of_sinks (Client.sinks_perform? hd) (History.not_attached_ofDeed _ _)
  | begin hs hi hb => exact Client.remembers_of_sinks hb.sinks History.not_attached_nil
  | move hf hi hm =>
      simp only [acts, hi]
      exact Client.remembers_composes.move? hm (hr.known hi).supervisor
        (hr.held_of_opening hi (Client.phase_of_move? hm)) fun _ _ _ => trivial

theorem remembers_of_run {es : List (Event α)} (hr : w.Reachable) (h : w.run es = some w') :
    w.client.Remembers (w.history es) w'.client :=
  related_of_run Client.remembers_composes (fun hr _ hs => remembers_of_step hr hs) hr rfl h

/-! ## Lives -/

/-- The state of a supervisor, and the channel that it holds, by the deeds and the history of a run. -/
structure Lives (w : Scene α) (h : History) (s : SupervisorId) : Prop where
  disposed : (w.client.supervisor s).state = .disposed ↔ .deed (.dispose s) ∈ w.trace
  active : (w.client.supervisor s).state = .active ↔ .deed (.dispose s) ∉ w.trace ∧ ∃ id, h.Holds s id
  recreating : (w.client.supervisor s).state = .recreating ↔
    .deed (.dispose s) ∉ w.trace ∧ h.Attached s ∧ ∀ id, ¬ h.Holds s id
  uninitialized : (w.client.supervisor s).state = .uninitialized ↔ .deed (.dispose s) ∉ w.trace ∧ ¬ h.Attached s
  channel : ∀ id, (w.client.supervisor s).channel? = some id ↔ h.Holds s id
  present : (w.client.supervisor s).channel?.isSome = true ↔ (w.client.supervisor s).state = .active

theorem lives_of_run {recoverable direct : Bool} {es : List (Event α)}
    (hrun : (start recoverable direct).run es = some w) (s : SupervisorId) :
    w.Lives ((start (α := α) recoverable direct).history es) s := by
  have hr := Reachable.start (α := α) recoverable direct
  have hm := follows_of_run hr hrun _ (.start recoverable)
  generalize hh : (start (α := α) recoverable direct).history es = h at hm
  have hnot : (w.client.supervisor s).disposed = false ↔ .deed (.dispose s) ∉ w.trace := by
    rw [← (hr.run hrun).disposed_iff, Client.isDisposed, Bool.not_eq_true]
  have hever : (w.client.supervisor s).everHeld = true ↔ h.Attached s := by
    have hnever : ((start (α := α) recoverable direct).client.supervisor s).everHeld = false := rfl
    rw [remembers_of_run hr hrun s, hnever, hh]
    simp
  have hchannel : ∀ id, (w.client.supervisor s).channel? = some id ↔ h.Holds s id := by
    intro id
    constructor
    · exact fun hk => ⟨_, (hm.holders id s _).2 ⟨hk, rfl⟩⟩
    · rintro ⟨b, hb⟩
      exact ((hm.holders id s b).1 hb).1
  have hsome : (w.client.supervisor s).channel?.isSome = true ↔ ∃ id, h.Holds s id := by
    rw [Option.isSome_iff_exists]
    exact exists_congr hchannel
  have hnone : (w.client.supervisor s).channel? = none ↔ ∀ id, ¬ h.Holds s id := by
    rw [Option.eq_none_iff_forall_ne_some]
    exact forall_congr' fun id => not_congr (hchannel id)
  refine ⟨?disposed, ?active, ?recreating, ?uninitialized, hchannel, ?present⟩
  case disposed => rw [Supervisor.state_eq_disposed, ← (hr.run hrun).disposed_iff, Client.isDisposed]
  case active => rw [Supervisor.state_eq_active, hnot, hsome]
  case recreating => rw [Supervisor.state_eq_recreating, hnot, hnone, hever, and_comm (b := h.Attached s)]
  case uninitialized =>
    rw [Supervisor.state_eq_uninitialized, hnot, hnone, ← Bool.not_eq_true, hever]
    refine and_congr_right fun _ => ⟨And.right, fun hn => ⟨fun id hid => hn hid.attached, hn⟩⟩
  case present =>
    rw [Supervisor.state_eq_active, iff_and_self]
    intro hk
    refine eq_false_of_ne_true fun hd => ?_
    rw [Supervisor.channel?, (hr.run hrun).held_of_disposed hd] at hk
    cases hk

/-! ## Turns -/

theorem Reachable.exists_run (h : w.Reachable) :
    ∃ recoverable direct es, (Scene.start recoverable direct).run es = some w := by
  induction h with
  | start recoverable direct => exact ⟨recoverable, direct, [], rfl⟩
  | @step w w' e _ hs ih =>
      obtain ⟨recoverable, direct, es, hrun⟩ := ih
      exact ⟨recoverable, direct, es ++ [e], by rw [run_append, hrun]; exact run_cons_eq_some.2 ⟨w', hs, rfl⟩⟩

theorem Reachable.everHeld_of_held (h : w.Reachable) (hk : (w.client.supervisor s).held.isSome = true) :
    (w.client.supervisor s).everHeld = true := by
  obtain ⟨recoverable, direct, es, hrun⟩ := h.exists_run
  obtain ⟨id, hid⟩ : ∃ id, (w.client.supervisor s).channel? = some id := by
    rwa [← Option.isSome_iff_exists, Supervisor.channel?, Option.isSome_map]
  exact (remembers_of_run (.start recoverable direct) hrun s).2
    (.inr (((lives_of_run hrun s).channel id).1 hid).attached)

/-- What a step comes to for the state of a supervisor. -/
inductive Turns (w : Scene α) (s : SupervisorId) (e : Event α) (w' : Scene α) : Prop where
  | stays (h : (w'.client.supervisor s).state = (w.client.supervisor s).state)
  | attached {id : ChannelId} (hn : (w.client.supervisor s).state = .uninitialized ∨
      (w.client.supervisor s).state = .recreating) (hc : w.Calls s e id)
      (h : (w'.client.supervisor s).state = .active) (hk : (w'.client.supervisor s).channel? = some id)
  | released (hn : (w.client.supervisor s).state = .active) (h : (w'.client.supervisor s).state = .recreating)
  | disposed (he : e = .deed (.dispose s)) (h : (w'.client.supervisor s).state = .disposed)

theorem Reachable.turns_of_sinks (hr : w.Reachable) (hd : w'.client.isDisposed s = w.client.isDisposed s)
    (h : (w.client.supervisor s).Sinks (w'.client.supervisor s)) : w.Turns s e w' :=
  (h.state hd hr.everHeld_of_held).elim .stays fun hn => .released hn.1 hn.2

theorem turns_of_step (hr : w.Reachable) (hs : w.step e = some w') (s : SupervisorId) : w.Turns s e w' := by
  cases steps_of_step hs with
  | @deed d c hf hd =>
      have hdisposed := Client.isDisposed_perform? hd s
      by_cases hds : d = .dispose s
      · exact .disposed (congrArg _ hds) (Supervisor.state_eq_disposed.2 (hdisposed.2 (.inr hds)))
      · rw [or_iff_left hds, ← Bool.eq_iff_iff] at hdisposed
        exact hr.turns_of_sinks hdisposed (Client.sinks_perform? hd s)
  | begin hl hi hb => exact hr.turns_of_sinks (hb.keeps.disposed s) (hb.sinks s)
  | @move i m p q c hf hi hm =>
      have hl := Client.leads_of_move? hm
      have hkeeps := hl.keeps.disposed s
      rcases hl.sinks_or_attaches (hr.known hi).supervisor s with
        hsinks | ⟨rfl, id, ⟨c₀, c₁, ho, -⟩, ⟨hd, hn⟩ | ⟨hreached, hk⟩⟩
      · exact hr.turns_of_sinks hkeeps hsinks
      · refine .stays ?_
        exact (Supervisor.state_eq_disposed.2 hd).trans (Supervisor.state_eq_disposed.2 (hkeeps.symm.trans hd)).symm
      · have hd : w.client.isDisposed p.invocation.supervisor = false := by
          refine eq_false_of_ne_true fun hd => ?_
          have hnone := (hr.step hs).held_of_disposed (s := p.invocation.supervisor) (hkeeps.trans hd)
          rw [put] at hnone
          rw [Supervisor.channel?, hnone] at hk
          cases hk
        have hactive : (c.supervisor p.invocation.supervisor).state = .active :=
          Supervisor.state_eq_active.2 ⟨hkeeps.trans hd, by rw [hk]; rfl⟩
        have hcalls : w.Calls p.invocation.supervisor (.move i m) id := by
          refine ⟨i, ⟨p, hi, rfl⟩, _, _, hs, rfl, ?_⟩
          rw [marks_of_ne_rest ho.ne_rest, hreached, (hr.known hi).id]
          exact List.mem_append_right _ (List.mem_singleton.2 rfl)
        cases hstate : (w.client.supervisor p.invocation.supervisor).state with
        | uninitialized => exact .attached (.inl hstate) hcalls hactive hk
        | recreating => exact .attached (.inr hstate) hcalls hactive hk
        | active => exact .stays (hactive.trans hstate.symm)
        | disposed => exact absurd (Supervisor.state_eq_disposed.1 hstate) (by rw [Client.isDisposed] at hd; simp [hd])

namespace Turns

theorem disposed_of_disposed (h : w.Turns s e w') (hd : (w.client.supervisor s).state = .disposed) :
    (w'.client.supervisor s).state = .disposed := by
  cases h with
  | stays h => exact h.trans hd
  | attached hn => rcases hn with hn | hn <;> cases hd.symm.trans hn
  | released hn => cases hd.symm.trans hn
  | disposed _ h => exact h

theorem initialized (h : w.Turns s e w') (hi : (w.client.supervisor s).state ≠ .uninitialized) :
    (w'.client.supervisor s).state ≠ .uninitialized := by
  cases h with
  | stays h => rwa [h]
  | attached _ _ h | released _ h | disposed _ h => simp [h]

theorem uninitialized (h : w.Turns s e w') (hu : (w.client.supervisor s).state = .uninitialized)
    (hne : e ≠ .deed (.dispose s)) (hno : ∀ id, ¬ w.Calls s e id) :
    (w'.client.supervisor s).state = .uninitialized := by
  cases h with
  | stays h => exact h.trans hu
  | attached _ hc => exact absurd hc (hno _)
  | released hn => cases hu.symm.trans hn
  | disposed he => exact absurd he hne

end Turns

/-- A channel that is not opened or not attached changes the state of no supervisor. -/
theorem state_of_unattached {i : InvocationId} {a : Attempt α} (hr : w.Reachable) (hs : w.step e = some w')
    (hl : w.Leaves e (.attempted i a)) (ha : a.isAction = false) (s : SupervisorId) :
    (w'.client.supervisor s).state = (w.client.supervisor s).state := by
  obtain ⟨w'', ms, hs', ht, hk⟩ := hl
  rw [hs] at hs'
  cases hs'
  cases steps_of_step hs with
  | deed hf hd =>
      obtain rfl := List.append_cancel_left ht
      cases List.mem_singleton.1 hk
  | begin hl hi hb =>
      obtain rfl := List.append_cancel_left ht
      refine absurd hk ?_
      cases hb <;> simp [Participant.reached, Client.fresh]
  | @move j m p q c hf hi hm =>
      obtain rfl := List.append_cancel_left ht
      have hl := Client.leads_of_move? hm
      rw [attempted_mem_marks hk] at hl
      exact hl.state_of_unattached ha (hr.held_of_opening hi (Client.phase_of_move? hm)) s

/-- Whatever comes after, nobody gets back to where no channel was attached, nobody gets away from a disposal, and who
is neither disposed of nor calls an action stays where no channel was attached. -/
structure Lasts (w : Scene α) (s : SupervisorId) (es : List (Event α)) (w' : Scene α) : Prop where
  disposed : (w.client.supervisor s).state = .disposed → (w'.client.supervisor s).state = .disposed
  initialized : (w.client.supervisor s).state ≠ .uninitialized → (w'.client.supervisor s).state ≠ .uninitialized
  uninitialized : (w.client.supervisor s).state = .uninitialized →
    w.Along (fun w e => e ≠ .deed (.dispose s) ∧ ∀ id, ¬ w.Calls s e id) es →
    (w'.client.supervisor s).state = .uninitialized

theorem lasts_of_run {es : List (Event α)} (hr : w.Reachable) (hrun : w.run es = some w') (s : SupervisorId) :
    w.Lasts s es w' := by
  induction es generalizing w with
  | nil => cases hrun; exact ⟨id, id, fun h _ => h⟩
  | cons e es ih =>
      obtain ⟨w₁, hs, hrun⟩ := run_cons_eq_some.1 hrun
      have hturn := turns_of_step hr hs s
      have hlater := ih (hr.step hs) hrun
      refine ⟨fun h => hlater.disposed (hturn.disposed_of_disposed h),
        fun h => hlater.initialized (hturn.initialized h), fun h halong => ?_⟩
      obtain ⟨⟨hne, hno⟩, halong⟩ := (along_cons hs).1 halong
      exact hlater.uninitialized (hturn.uninitialized h hne hno) halong

/-- At every point of a run the state of a supervisor is told by its history, every step turns it in one of few ways,
attempts that get no channel leave it alone, and no way leads back to where no channel was attached or out of a
disposal. -/
theorem lifecycle {recoverable direct : Bool} {es : List (Event α)}
    (hrun : (start recoverable direct).run es = some w) (s : SupervisorId) :
    w.Lives ((start (α := α) recoverable direct).history es) s ∧
    (∀ e w', w.step e = some w' → w.Turns s e w' ∧
      ∀ i a, w.Leaves e (.attempted i a) → a.isAction = false →
        (w'.client.supervisor s).state = (w.client.supervisor s).state) ∧
    ∀ es' w', w.run es' = some w' → w.Lasts s es' w' := by
  have hr := (Reachable.start (α := α) recoverable direct).run hrun
  exact ⟨lives_of_run hrun s,
    fun e w' hs => ⟨turns_of_step hr hs s, fun i a hl ha => state_of_unattached hr hs hl ha s⟩,
    fun es' w' hrun' => lasts_of_run hr hrun' s⟩

/-- The first opening fails, the second one gives a channel, and the next attempt finds that it has shut down. -/
def renewed : List (Event Nat) :=
  [.deed (.supervise {}), .deed (.failNext (.unreachable "away")), .begin ⟨0⟩ ⟨0⟩ none, .move ⟨0⟩ .enter,
    .move ⟨0⟩ .look, .move ⟨0⟩ .opens, .move ⟨0⟩ .look, .move ⟨0⟩ (.answer .elapsed), .move ⟨0⟩ .look,
    .move ⟨0⟩ .opens, .deed (.signal ⟨1⟩ (.shutdown .goodbye)), .move ⟨0⟩ .look,
    .move ⟨0⟩ (.answer (.acted (.error (.unreachable "away")))), .move ⟨0⟩ .look, .move ⟨0⟩ (.answer .elapsed)]

theorem lifecycle_renewed : ∃ w w', (start true true).run renewed = some w ∧
    ((start true true).history renewed).Attached ⟨0⟩ ∧ (∀ id, ¬ ((start true true).history renewed).Holds ⟨0⟩ id) ∧
    w.run [.deed (.dispose ⟨0⟩), .move ⟨0⟩ .look] = some w' ∧ w.Lasts ⟨0⟩ [.deed (.dispose ⟨0⟩), .move ⟨0⟩ .look] w' ∧
    (w'.client.supervisor ⟨0⟩).state ≠ .uninitialized := by
  obtain ⟨w, hw⟩ := Option.isSome_iff_exists.1 (rfl : ((start true true).run renewed).isSome = true)
  have hstate : (w.client.supervisor ⟨0⟩).state = .recreating :=
    map_of_run (·.client.supervisor ⟨0⟩ |>.state) hw rfl
  obtain ⟨w', hw'⟩ := Option.isSome_iff_exists.1
    (map_of_run (fun w => (w.run [.deed (.dispose ⟨0⟩), .move ⟨0⟩ .look]).isSome) hw rfl : _ = true)
  obtain ⟨hlives, -, hlater⟩ := lifecycle hw ⟨0⟩
  obtain ⟨-, hattached, hfree⟩ := hlives.recreating.1 hstate
  have hlasts := hlater _ w' hw'
  exact ⟨w, w', hw, hattached, hfree, hw', hlasts, hlasts.initialized (by simp [hstate])⟩

end Scene

end BrokerClient
