import BrokerClient.Proofs.Scene.Locking
import BrokerClient.Proofs.Scene.Retention

/-!
# Held channels

A supervisor holds nothing while one of its invocations opens a channel (`Reachable.held_of_opening`), and
nothing once it is disposed of (`Reachable.held_of_disposed`). What it holds is a channel of the connection, which
confirms if the supervisor asks for confirmations (`Reachable.held_confirms`).
-/
namespace BrokerClient

namespace Client

variable {α : Type} {c c' : Client} {s : SupervisorId} {v : Invocation} {m : Move α}

/-! ## What a step does to what is held -/

@[simp] theorem held_left (c : Client) (v : Invocation) (s : SupervisorId) :
    ((c.left v).supervisor s).held = (c.supervisor s).held := by
  rw [left, supervisor_modify_eq _ _ _ rfl]
  split
  · rename_i h; rw [h]
  · rfl

@[simp] theorem held_joined (c : Client) (v : Invocation) (s : SupervisorId) :
    ((c.joined v).supervisor s).held = (c.supervisor s).held := by
  rw [joined, supervisor_modify]
  split
  · rename_i h; rw [h.1]
  · rfl

theorem Begun.held {p : Participant α} (h : Begun c v c' p) (s : SupervisorId) :
    (c'.supervisor s).held = (c.supervisor s).held := by
  cases h with
  | late => rfl
  | cancelled => exact held_left c v s
  | joins => exact held_joined c v s

theorem held_failed (c : Client) (v : Invocation) (e : TransportError) (s : SupervisorId) :
    ((c.failed v e).supervisor s).held = (c.supervisor s).held ∨ ((c.failed v e).supervisor s).held = none := by
  unfold failed
  simp only [supervisor_record]
  split
  · rw [held_closeHeld]
    split
    · exact .inr rfl
    · exact .inl rfl
  · exact .inl rfl

theorem Opens.supervisor {r : Except TransportError ChannelId} (h : Opens c m c' r) (s : SupervisorId) :
    c'.supervisor s = c.supervisor s := by
  cases h with
  | own => exact supervisor_openChannel c s
  | foreign r => rfl

theorem Fails.supervisor {a : Attempt α} {e : TransportError} (h : Fails c v m a c' e) (s : SupervisorId) :
    c'.supervisor s = c.supervisor s := by
  cases h with
  | unopened _ ho => exact ho.supervisor s
  | unattached _ ho ha => rw [attach_error ha, supervisor_close, ho.supervisor]
  | acted => rfl

/-- Who comes to hold a channel by attaching it has it confirm, if that is asked for. -/
theorem held_of_attach {id : ChannelId} {k : Held} (ha : c.attach s id = (c', .ok ()))
    (hn : (c.supervisor s).held = none) (hk : (c'.supervisor s).held = some k) :
    ∃ ch, c'.connection.channel? k.channel = some ch ∧
      ((c.supervisor s).options.confirms = true → ch.confirming = true) := by
  obtain ⟨ch, ha⟩ := attach_ok ha
  rw [ha.supervisor] at hk
  split at hk
  · cases hk
    rw [show (handles ch).channel = id from Connection.id_of_channel? ha.known, ha.channels, if_pos rfl]
    exact ⟨_, rfl, fun h => Bool.or_eq_true_iff.2 (.inl h)⟩
  · rw [hn] at hk; cases hk

theorem lt_of_held {k : Held} (hk : (c.supervisor s).held = some k) : s.number < c.supervisors.length := by
  refine lt_of_supervisor_ne fun h => ?_
  rw [h] at hk
  cases hk

theorem Leads.held {a : Option (Attempt α)} {q : Participant α} (h : Leads c v m a c' q) (s : SupervisorId) :
    (c'.supervisor s).held = (c.supervisor s).held ∨ (c'.supervisor s).held = none ∨
      (s = v.supervisor ∧ v.stage = .opening ∧ c'.isDisposed s = false ∧
        ∃ (c₀ : Client) (id : ChannelId), c₀.supervisor s = c.supervisor s ∧ c₀.attach s id = (c', .ok ())) := by
  cases h with
  | looked | rested | unheld | reuses => exact .inl rfl
  | givenUp | succeeds => exact .inl (held_left c v s)
  | discards =>
      rw [discarded, held_closeHeld]
      split
      · exact .inr (.inl rfl)
      · exact .inl rfl
  | attaches hs ho ha hd =>
      by_cases h : s = v.supervisor
      · subst h
        exact .inr (.inr ⟨rfl, hs, hd, _, _, ho.supervisor _, ha⟩)
      · obtain ⟨ch, ha⟩ := attach_ok ha
        rw [ha.supervisor, if_neg (fun hm => h hm.1), ho.supervisor]
        exact .inl rfl
  | orphans hs ho ha hd =>
      rw [held_left, held_closeHeld]
      split
      · exact .inr (.inl rfl)
      · rename_i h
        obtain ⟨ch, ha⟩ := attach_ok ha
        rw [ha.supervisor, if_neg (fun hm => h hm.1), ho.supervisor]
        exact .inl rfl
  | throws hf _ =>
      rw [held_left, ← hf.supervisor]
      exact (held_failed _ v _ s).imp_right .inl
  | suppresses hf _ =>
      rw [← hf.supervisor]
      exact (held_failed _ v _ s).imp_right .inl

theorem held_dispose (c : Client) (s s' : SupervisorId) :
    ((c.dispose s).supervisor s').held = (c.supervisor s').held ∨ ((c.dispose s).supervisor s').held = none := by
  unfold dispose
  split
  · exact .inl rfl
  · rw [supervisor_record, held_closeHeld]
    split
    · exact .inr rfl
    · rename_i h
      rw [supervisor_modify_of_ne h]
      exact .inl rfl

theorem held_perform? {d : Deed} (h : c.perform? d = some c') (s : SupervisorId) :
    (c'.supervisor s).held = (c.supervisor s).held ∨ (c'.supervisor s).held = none := by
  rcases perform?_cases h with ⟨o, rfl, rfl⟩ | ⟨s', rfl, hs, rfl⟩ | ⟨t, rfl, rfl⟩ | ⟨hd, -, hs, -⟩
  · rw [supervisor_addSupervisor]
    split
    · exact .inr rfl
    · exact .inl rfl
  · exact held_dispose c s' s
  · unfold cancel; split <;> exact .inl rfl
  · simp only [supervisor, hs, true_or]

end Client

namespace Scene

variable {α : Type} {w w' : Scene α} {e : Event α} {i : InvocationId} {p : Participant α}

/-- While an invocation opens a channel, nobody else makes its supervisor hold one. -/
theorem Reachable.held_of_opening (h : w.Reachable) (hp : w.participants i = some p)
    (hn : ∀ o, p.phase ≠ .ended o) (hs : p.invocation.stage = .opening) :
    (w.client.supervisor p.invocation.supervisor).held = none := by
  refine h.participant (P := fun w p => (∀ o, p.phase ≠ .ended o) → p.invocation.stage = .opening →
    (w.client.supervisor p.invocation.supervisor).held = none) ?_ ?_ ?_ hp hn hs
  · intro w i s t c p _ _ _ hb hn hs
    rw [hb.invocation] at hs
    cases hs
  · intro w i p m q c _ _ hn hm ih hn' hs
    generalize w.client.attempted? p.invocation m = a at hm
    cases hm with
    | looked | rested => exact ih hn hs
    | unheld _ _ hh => exact hh
    | discards => exact (Client.held_closeHeld ..).trans (if_pos rfl)
    | reuses | attaches | suppresses => cases hs
    | givenUp | orphans | throws | succeeds => exact absurd rfl (hn' _)
  · intro w w' e i p hr hs hp hm ih hn ho
    have ih := ih hn ho
    cases hs with
    | deed hf hd =>
        rcases Client.held_perform? hd p.invocation.supervisor with h | h
        · exact h.trans ih
        · exact h
    | begin hs hi hb => exact (hb.held _).trans ih
    | @move j m p' q c hf hj hm' =>
        rcases (Client.leads_of_move? hm').held p.invocation.supervisor with h | h | ⟨hs, ho', -, -⟩
        · exact h.trans ih
        · exact h
        · have hn' := Client.phase_of_move? hm'
          have hji := hr.eq_of_past_queue hp hj hs.symm hn hn' (by simp [ho]) (by simp [ho'])
          exact absurd (hji ▸ rfl) (hm m)

theorem Reachable.held_of_disposed (h : w.Reachable) {s : SupervisorId} (hd : w.client.isDisposed s = true) :
    (w.client.supervisor s).held = none := by
  induction h with
  | start => rfl
  | @step w w' e hr hs ih =>
      have hs := steps_of_step hs
      cases hs with
      | @deed d c hf hp =>
          rcases (Client.isDisposed_perform? hp s).1 hd with hd' | rfl
          · rcases Client.held_perform? hp s with h | h
            · exact h.trans (ih hd')
            · exact h
          · cases hd' : w.client.isDisposed s with
            | true =>
                rcases Client.held_perform? hp s with h | h
                · exact h.trans (ih hd')
                · exact h
            | false =>
                simp only [Client.perform?] at hp
                split at hp
                · cases hp
                  simp only [Client.dispose, hd', Bool.false_eq_true, if_false]
                  exact (Client.held_closeHeld ..).trans (if_pos rfl)
                · cases hp
      | begin hs hi hb =>
          exact (hb.held s).trans (ih ((hb.keeps.disposed s).symm.trans hd))
      | move hf hi hm =>
          have hm := Client.leads_of_move? hm
          rcases hm.held s with h | h | ⟨-, -, hd', -⟩
          · exact h.trans (ih ((hm.keeps.disposed s).symm.trans hd))
          · exact h
          · exact absurd (hd.symm.trans hd') (by simp)

/-- A held channel is known, and confirms if that is asked for. -/
theorem Reachable.held_confirms (h : w.Reachable) {s : SupervisorId} {k : Held}
    (hk : (w.client.supervisor s).held = some k) : ∃ ch, w.client.connection.channel? k.channel = some ch ∧
      ((w.client.supervisor s).options.confirms = true → ch.confirming = true) := by
  induction h generalizing s k with
  | start => cases hk
  | @step w w' e hr hs ih =>
      have hs := steps_of_step hs
      have hret := hs.retains
      have hkept (hopt : (w'.client.supervisor s).options = (w.client.supervisor s).options)
          (hold : (w.client.supervisor s).held = some k) :
          ∃ ch, w'.client.connection.channel? k.channel = some ch ∧
            ((w'.client.supervisor s).options.confirms = true → ch.confirming = true) := by
        obtain ⟨ch, hc, hconf⟩ := ih hold
        obtain ⟨ch', hc', hconf'⟩ := hret k.channel ch hc
        exact ⟨ch', hc', fun ho => hconf' (hconf (hopt ▸ ho))⟩
      cases hs with
      | deed hf hd =>
          rcases Client.held_perform? hd s with h | h
          · have hold := h.symm.trans hk
            exact hkept ((Client.Grows.perform? hd).options s (Client.lt_of_held hold)) hold
          · exact absurd (h.symm.trans hk) (by simp)
      | begin hl hi hb =>
          exact hkept (hb.keeps.options s) ((hb.held s).symm.trans hk)
      | @move i m p q c hf hi hm =>
          have hn := Client.phase_of_move? hm
          have hm := Client.leads_of_move? hm
          rcases hm.held s with h | h | ⟨rfl, ho, -, c₀, id, hc₀, ha⟩
          · exact hkept (hm.keeps.options s) (h.symm.trans hk)
          · exact absurd (h.symm.trans hk) (by simp)
          · have hnone : (c₀.supervisor p.invocation.supervisor).held = none := by
              rw [hc₀]
              exact hr.held_of_opening hi hn ho
            have hnew := Client.held_of_attach ha hnone hk
            rwa [← (Client.Keeps.attach ha).options p.invocation.supervisor] at hnew

end Scene

end BrokerClient
