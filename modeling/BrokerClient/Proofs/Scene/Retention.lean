import BrokerClient.Proofs.Scene.Runs

/-!
# Channels that stay

A connection forgets no channel, and a channel that confirms goes on confirming (`Retains`): what a deed or a move
does to a channel is to open or to close it, or to change its listeners.
-/
namespace BrokerClient

namespace Client

variable {α : Type} {c c' c'' : Client} {s : SupervisorId} {v : Invocation} {m : Move α}

/-- Known channels stay known and go on confirming. -/
def Retains (c c' : Client) : Prop :=
  ∀ id ch, c.connection.channel? id = some ch →
    ∃ ch', c'.connection.channel? id = some ch' ∧ (ch.confirming = true → ch'.confirming = true)

namespace Retains

theorem refl (c : Client) : Retains c c :=
  fun _ ch h => ⟨ch, h, id⟩

theorem trans (h : Retains c c') (h' : Retains c' c'') : Retains c c'' := by
  intro id ch hc
  obtain ⟨ch', hc', hk⟩ := h id ch hc
  obtain ⟨ch'', hc'', hk'⟩ := h' id ch' hc'
  exact ⟨ch'', hc'', hk' ∘ hk⟩

theorem of_eq (h : c'.connection.channels = c.connection.channels) : Retains c c' :=
  fun _ ch hc => ⟨ch, by simpa only [Connection.channel?, h] using hc, id⟩

/-- One channel changes. -/
theorem of_map {f : Channel Listener → Channel Listener} (id : ChannelId)
    (hch : ∀ j, c'.connection.channel? j = if j = id then (c.connection.channel? j).map f else c.connection.channel? j)
    (hf : ∀ ch, ch.confirming = true → (f ch).confirming = true) : Retains c c' := by
  intro j ch hc
  rw [hch, hc]
  split
  · exact ⟨f ch, rfl, hf ch⟩
  · exact ⟨ch, rfl, fun h => h⟩

theorem onChannel {f : Channel Listener → Channel Listener × Deliveries Listener} (id : ChannelId)
    (hid : ∀ ch, (f ch).1.id = ch.id) (hf : ∀ ch, (f ch).1.confirming = ch.confirming) :
    Retains c (c.onChannel id f) := by
  refine of_map id (f := fun ch => (f ch).1) (fun j => ?_) (fun ch h => (hf ch).trans h)
  rw [channel?_onChannel c id j hid]
  split
  · rename_i h; rw [h]
  · rfl

theorem record (r : Log.Record) : Retains c (c.record r) :=
  refl c

theorem close (id : ChannelId) : Retains c (c.close id) :=
  onChannel id (fun _ => rfl) (fun _ => rfl)

theorem closeHeld (s : SupervisorId) : Retains c (c.closeHeld s) := by
  cases hh : (c.supervisor s).held with
  | none => rw [closeHeld_of_none hh]; exact refl c
  | some h => exact of_map h.channel (channel?_closeHeld hh) (fun _ => id)

theorem openChannel (c : Client) : Retains c c.openChannel.1 := by
  rcases openChannel_cases c with ⟨e, rest, -, ho⟩ | ⟨new, -, ho⟩
  · rw [ho]
    exact of_eq rfl
  · intro id ch hc
    rw [ho]
    refine ⟨ch, ?_, fun h => h⟩
    rw [Connection.channel?] at hc ⊢
    simp only [List.find?_append, hc, Option.some_or]

theorem confirmSelect {id : ChannelId} (h : c.confirmSelect id = .ok c') : Retains c c' := by
  obtain ⟨ch, hc, -, -⟩ := confirmSelect_ok h
  refine of_map id (f := fun ch => { ch with confirming := true }) (fun j => ?_) (fun _ _ => rfl)
  rw [channel?_confirmSelect h hc]
  split
  · rename_i hj; rw [hj, hc]; rfl
  · rfl

theorem attach {id : ChannelId} {r : Except TransportError Unit} (h : c.attach s id = (c', r)) : Retains c c' := by
  cases r with
  | error e => rw [attach_error h]; exact close id
  | ok u =>
      obtain ⟨ch, hat⟩ := attach_ok h
      intro j ch' hc
      rw [hat.channels]
      split
      · rename_i hj
        obtain rfl : ch = ch' := Option.some.inj (hat.known.symm.trans (hj ▸ hc))
        exact ⟨_, rfl, fun hk => Bool.or_eq_true_iff.2 (.inr hk)⟩
      · exact ⟨ch', hc, fun h => h⟩

theorem failed (v : Invocation) (e : TransportError) : Retains c (c.failed v e) := by
  unfold Client.failed
  simp only
  split
  · exact closeHeld v.supervisor
  · exact refl c

end Retains

theorem Opens.retains {r : Except TransportError ChannelId} (h : Opens c m c' r) : Retains c c' := by
  cases h with
  | own => exact .openChannel c
  | foreign => exact .refl c

theorem Fails.retains {a : Attempt α} {e : TransportError} (h : Fails c v m a c' e) : Retains c c' := by
  cases h with
  | unopened _ ho => exact ho.retains
  | unattached _ ho ha => exact ho.retains.trans (.attach ha)
  | acted => exact .refl c

theorem Leads.retains {a : Option (Attempt α)} {q : Participant α} (h : Leads c v m a c' q) : Retains c c' := by
  cases h with
  | looked | rested | givenUp | unheld | reuses | succeeds => exact .refl c
  | discards => exact (Retains.record _).trans (.closeHeld _)
  | attaches _ ho ha _ => exact ho.retains.trans (.attach ha)
  | orphans _ ho ha _ => exact (ho.retains.trans (.attach ha)).trans (.closeHeld _)
  | throws hf _ | suppresses hf _ => exact hf.retains.trans (.failed v _)

theorem Begun.retains {p : Participant α} (h : Begun c v c' p) : Retains c c' := by
  cases h <;> exact .refl c

theorem Retains.perform? {d : Deed} (h : c.perform? d = some c') : Retains c c' := by
  cases d with
  | supervise | failNext => cases h; exact refl c
  | openChannel => cases h; exact openChannel c
  | listen | listenRecovery => cases h; exact onChannel _ (fun _ => rfl) (fun _ => rfl)
  | cancel t =>
      cases h
      unfold Client.cancel
      split <;> exact refl c
  | dispose s =>
      simp only [Client.perform?] at h
      split at h
      · cases h
        unfold Client.dispose
        split
        · exact refl c
        · exact closeHeld (c := c.modify s ({ · with disposed := true })) s
      · cases h
  | confirmSelect ch =>
      simp only [Client.perform?] at h
      cases hc : c.confirmSelect ch with
      | error e => rw [hc] at h; cases h
      | ok c₁ =>
          rw [hc] at h
          cases h
          exact confirmSelect hc
  | signal ch g =>
      simp only [Client.perform?] at h
      split at h
      · cases h; exact onChannel ch (Channel.id_raise · g) (fun _ => by cases g <;> rfl)
      · cases h
  | close =>
      simp only [Client.perform?] at h
      split at h
      · cases h; exact close _
      · cases h
  | unlisten | unlistenRecovery =>
      simp only [Client.perform?] at h
      split at h
      · cases h
      · cases h; exact onChannel _ (fun _ => rfl) (fun _ => rfl)

end Client

namespace Scene

variable {α : Type} {w w' : Scene α} {e : Event α}

theorem Steps.retains (h : w.Steps e w') : w.client.Retains w'.client := by
  cases h with
  | deed hf hd => exact .perform? hd
  | begin hl hi hb => exact hb.retains
  | move hf hi hm => exact (Client.leads_of_move? hm).retains

theorem retains_of_run {es : List (Event α)} (hrun : w.run es = some w') : w.client.Retains w'.client := by
  induction es generalizing w with
  | nil => cases hrun; exact .refl _
  | cons e es ih =>
      obtain ⟨w₁, hs, hrun⟩ := run_cons_eq_some.1 hrun
      exact (steps_of_step hs).retains.trans (ih hrun)

end Scene

end BrokerClient
