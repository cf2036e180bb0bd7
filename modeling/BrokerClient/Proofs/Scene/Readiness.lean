import BrokerClient.Proofs.Scene.Custody

/-!
# Ready channels

An action is called on a channel that its supervisor holds and listens to, which is open and confirms if that is asked
for, and never after a disposal of the supervisor (`called_on_ready`). The channel was found open when the attempt
began, or it was opened for the attempt; all else holds of every held channel.
-/
namespace BrokerClient

namespace Client

variable {α : Type} {c c' : Client} {s : SupervisorId} {v : Invocation} {m : Move α} {q : Participant α}
  {id : ChannelId}

/-- The supervisor is not disposed of, and holds a channel that is open, has the listeners of the supervisor, and
confirms if that is asked for. -/
structure Ready (c : Client) (s : SupervisorId) (id : ChannelId) : Prop where
  undisposed : c.isDisposed s = false
  named : (c.supervisor s).channel? = some id
  wired : ∃ k ch, (c.supervisor s).held = some k ∧ c.connection.channel? id = some ch ∧ ch.isOpen = true ∧
    forwarders ch.listeners = [(k.listener, c.forwarder s id)] ∧
    forwarders ch.recoveryListeners = [(k.recoveryListener, c.forwarder s id)] ∧
    ((c.supervisor s).options.confirms = true → ch.confirming = true)

/-- A supervisor that is not disposed of holds an open channel. -/
structure Operates (c : Client) (s : SupervisorId) (id : ChannelId) : Prop where
  undisposed : c.isDisposed s = false
  named : (c.supervisor s).channel? = some id
  isOpen : c.isOpen id = true

/-- A new channel is open when it is attached. -/
theorem operates_of_attach {c₀ : Client} (hs : s.number < c.supervisors.length)
    (hn : ∀ j ∈ c.connection.channels.map Channel.id, j.number ≤ c.connection.channels.length)
    (ho : c.openChannel = (c₀, .ok id)) (ha : c₀.attach s id = (c', .ok ())) (hd : c'.isDisposed s = false) :
    c'.Operates s id := by
  obtain ⟨-, hch⟩ := channel?_openChannel hn (show c.openChannel.2 = .ok id by rw [ho])
  obtain ⟨ch, hat⟩ := attach_ok ha
  have hknown := hat.known
  have hlen : s.number < c₀.supervisors.length := by
    have := (Keeps.openChannel c).length
    rw [ho] at this
    rwa [this]
  simp only [ho] at hch
  rw [hch, if_pos rfl] at hknown
  refine ⟨hd, ?_, ?_⟩
  · rw [hat.supervisor, if_pos ⟨rfl, hlen⟩]
    exact congrArg some (Connection.id_of_channel? hat.known)
  · rw [isOpen, hat.channels, if_pos rfl, ← Option.some.inj hknown]
    rfl

theorem Opens.own_of {c₀ : Client} {r : Except TransportError ChannelId} (h : Opens c m c₀ r)
    (hm : ∀ r, m ≠ .answer (.opened r)) : c.openChannel = (c₀, r) := by
  cases h with
  | own => rfl
  | foreign r => exact absurd rfl (hm r)

/-- A channel that the connection opens itself is as the connection makes them. -/
theorem Opens.channel? {c₀ : Client} (h : Opens c m c₀ (.ok id)) (hm : ∀ r, m ≠ .answer (.opened r))
    (hn : ∀ j ∈ c.connection.channels.map Channel.id, j.number ≤ c.connection.channels.length) :
    c₀.connection.channel? id = some { id, recoverable := c.connection.recoverable } := by
  have heq := h.own_of hm
  have hnew := (channel?_openChannel hn (by rw [heq])).2 id
  rwa [if_pos rfl, heq] at hnew

/-- A call is the only mark of its step, and is made on the open channel that the supervisor holds. -/
theorem Leads.operates {i : InvocationId} (h : Leads c v m (c.attempted? v m) c' q)
    (hk : .called i id ∈ Scene.marks c v m q) (hs : v.supervisor.number < c.supervisors.length)
    (hn : ∀ j ∈ c.connection.channels.map Channel.id, j.number ≤ c.connection.channels.length)
    (hm : ∀ r, m ≠ .answer (.opened r)) :
    Scene.marks c v m q = [.called i id] ∧ q.phase = .waiting ∧ q.invocation.stage = .acting id ∧
      c'.Operates v.supervisor id := by
  have hrest : m ≠ .rest := by rintro rfl; cases hk
  rw [Scene.marks_of_ne_rest hrest] at hk ⊢
  generalize c.attempted? v m = a at h hk ⊢
  cases h with
  | rested hr => exact absurd hr hrest
  | looked | givenUp | unheld | discards | orphans | throws | suppresses | succeeds =>
      simp [Participant.reached] at hk
  | reuses hb hi hh ho =>
      obtain ⟨rfl, rfl⟩ : i = v.id ∧ id = _ := by simpa [Participant.reached] using hk
      refine ⟨rfl, rfl, rfl, (interruption?_eq_none.1 hi).1, ?_, ho⟩
      rw [Supervisor.channel?, hh]
      rfl
  | attaches hv ho ha hd =>
      obtain ⟨rfl, rfl⟩ : i = v.id ∧ id = _ := by simpa [Participant.reached] using hk
      exact ⟨rfl, rfl, rfl, operates_of_attach hs hn (ho.own_of hm) ha hd⟩

end Client

namespace Scene

variable {α : Type} {w w' : Scene α} {e : Event α} {i : InvocationId} {p : Participant α} {s : SupervisorId}
  {id : ChannelId}

/-- What a supervisor that is not disposed of holds is wired. -/
theorem Reachable.ready (h : w.Reachable) (hd : w.direct = true) (ho : w.client.Operates s id) :
    w.client.Ready s id := by
  obtain ⟨hdisposed, hnamed, hopen⟩ := ho
  obtain ⟨k, hk, rfl⟩ := Option.map_eq_some_iff.1 hnamed
  obtain ⟨ch, hc, hst⟩ := (h.custody hd).held s k hk
  obtain ⟨ch', hc', hconf⟩ := h.held_confirms hk
  obtain rfl : ch = ch' := Option.some.inj (hc.symm.trans hc')
  rw [Client.isOpen, hc, Option.any_some] at hopen
  exact ⟨hdisposed, hnamed, k, ch, hk, hc, hopen, hst.listeners, hst.recoveryListeners, hconf⟩

theorem Reachable.ready_of_call {ms : List (Mark α)} (h : w.Reachable) (hd : w.direct = true)
    (hs : w.step e = some w') (ht : w'.trace = w.trace ++ ms) (hk : .called i id ∈ ms) :
    ms = [.called i id] ∧ ∃ p, w'.participants i = some p ∧ p.phase = .waiting ∧ p.invocation.stage = .acting id ∧
      w'.client.Ready p.invocation.supervisor id := by
  have hr' := h.step hs
  have hs := steps_of_step hs
  have hd' : w'.direct = true := hs.direct.trans hd
  cases hs with
  | deed hf hp =>
      obtain rfl := List.append_cancel_left ht
      cases List.mem_singleton.1 hk
  | @begin j s t c q hl hj hb =>
      obtain rfl := List.append_cancel_left ht
      refine absurd hk ?_
      cases hb <;> simp [Participant.reached, Client.fresh]
  | @move j m p q c hf hj hm =>
      obtain rfl := List.append_cancel_left ht
      have hl := Client.leads_of_move? hm
      have hown := ne_opened_of_direct hd hf
      obtain ⟨hms, hw, hstage, hop⟩ := hl.operates hk (h.known hj).supervisor (h.custody hd).numbered hown
      obtain rfl : j = i := (h.known hj).id.symm.trans (eq_of_isOf_marks hl.same.1 hk (decide_eq_true rfl))
      rw [← hl.same.2.1] at hop
      exact ⟨hms, q, if_pos rfl, hw, hstage, hr'.ready hd' hop⟩

/-- When an action is called, its channel is ready. -/
theorem called_on_ready {recoverable : Bool} {es : List (Event α)} {before after : List (Mark α)}
    (hrun : (start recoverable true).run es = some w) (ht : w.trace = before ++ .called i id :: after) :
    ∃ es₁ e es₂ w₁ w₂ p, es = es₁ ++ e :: es₂ ∧ (start recoverable true).run es₁ = some w₁ ∧
      w₁.step e = some w₂ ∧ w₁.trace = before ∧ w₂.trace = before ++ [.called i id] ∧
      w₂.participants i = some p ∧ p.phase = .waiting ∧ p.invocation.stage = .acting id ∧
      w₂.client.Ready p.invocation.supervisor id := by
  obtain ⟨es₁, e, es₂, w₁, w₂, l, l', hes, h₁, hs, hbefore, htrace⟩ := step_of_mark rfl hrun ht
  have hr := (Reachable.start recoverable true).run h₁
  obtain ⟨hms, p, hp, hw, hstage, hready⟩ := hr.ready_of_call (direct_of_run h₁) hs htrace
    (List.mem_append_right _ List.mem_cons_self)
  obtain ⟨rfl, rfl⟩ : l = [] ∧ l' = [] := by
    cases l with
    | nil => exact ⟨rfl, (List.cons.inj hms).2⟩
    | cons x xs => simp at hms
  rw [List.append_nil] at hbefore
  subst hbefore
  exact ⟨es₁, e, es₂, w₁, w₂, p, hes, h₁, hs, rfl, htrace, hp, hw, hstage, hready⟩

/-- Confirmations are asked for, and the channel shuts down under the first attempt; the second one opens another. -/
def reopened : List (Event Nat) :=
  [.deed (.supervise { confirms := true }), .begin ⟨0⟩ ⟨0⟩ none, .move ⟨0⟩ .enter, .move ⟨0⟩ .look, .move ⟨0⟩ .opens,
    .move ⟨0⟩ .look, .deed (.signal ⟨1⟩ (.shutdown .goodbye)),
    .move ⟨0⟩ (.answer (.acted (.error (.unreachable "away")))), .move ⟨0⟩ .look, .move ⟨0⟩ (.answer .elapsed),
    .move ⟨0⟩ .look, .move ⟨0⟩ .opens, .move ⟨0⟩ .look, .move ⟨0⟩ (.answer (.acted (.ok 7)))]

theorem called_on_ready_reopened : ∃ (w w₂ : Scene Nat) (before after : List (Mark Nat)) (p : Participant Nat),
    (start true true).run reopened = some w ∧
    w.trace = before ++ .called ⟨0⟩ ⟨2⟩ :: after ∧ w₂.trace = before ++ [.called ⟨0⟩ ⟨2⟩] ∧
    w₂.participants ⟨0⟩ = some p ∧ w₂.client.Ready p.invocation.supervisor ⟨2⟩ := by
  obtain ⟨w, hw⟩ := Option.isSome_iff_exists.1 (rfl : ((start true true).run reopened).isSome = true)
  have htrace : w.trace = [.deed (.supervise { confirms := true }), .began ⟨0⟩ ⟨0⟩ none, .opening ⟨0⟩, .called ⟨0⟩ ⟨1⟩,
      .deed (.signal ⟨1⟩ (.shutdown .goodbye)), .attempted ⟨0⟩ (.acted (.error (.unreachable "away"))), .opening ⟨0⟩] ++
      .called ⟨0⟩ ⟨2⟩ :: [.attempted ⟨0⟩ (.acted (.ok 7)), .ended ⟨0⟩ (.ok 7)] := map_of_run (·.trace) hw rfl
  obtain ⟨es₁, e, es₂, w₁, w₂, p, -, -, -, -, htrace₂, hp, -, -, hready⟩ := called_on_ready hw htrace
  exact ⟨w, w₂, _, _, p, hw, htrace, htrace₂, hp, hready⟩

end Scene

end BrokerClient
