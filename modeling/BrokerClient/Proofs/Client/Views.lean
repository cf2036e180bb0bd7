import BrokerClient.Client.Invocation

/-!
# What the operations of a client do to its channels and supervisors

A client is seen through `channel?` and `supervisor`. For each operation it is said here what it does to
the two, so that later proofs need not open it.
-/
namespace BrokerClient

/-! ## Channels of a connection -/

namespace Connection

variable {α β : Type} {c : Connection α} {id j : ChannelId} {ch : Channel α}

theorem id_of_channel? (h : c.channel? id = some ch) : ch.id = id := by
  have := List.find?_some h
  simpa using this

theorem channel?_put (c : Connection α) (ch : Channel α) (j : ChannelId) :
    (c.put ch).channel? j = (c.channel? j).map (fun old => if old.id = ch.id then ch else old) := by
  have hp : ((fun ch : Channel α => decide (ch.id = j)) ∘ fun old => if old.id = ch.id then ch else old)
      = fun ch => decide (ch.id = j) := by
    funext old
    simp only [Function.comp_apply]
    split
    · rename_i h; rw [h]
    · rfl
  simp only [channel?, put, List.find?_map, hp]

theorem channel?_modify (c : Connection α) (id j : ChannelId) {f : Channel α → Channel α × β}
    (hf : ∀ ch, (f ch).1.id = ch.id) :
    (c.modify id f).1.channel? j =
      if j = id then (c.channel? id).map (fun ch => (f ch).1) else c.channel? j := by
  unfold modify
  cases hc : c.channel? id with
  | none =>
      by_cases hj : j = id
      · subst j; simp [hc]
      · simp [hj]
  | some ch =>
      have hid := id_of_channel? hc
      simp only [channel?_put, hf, hid]
      by_cases hj : j = id
      · subst j; simp [hc, hid]
      · simp only [hj, if_false]
        cases hj' : c.channel? j with
        | none => rfl
        | some ch' =>
            have hid' := id_of_channel? hj'
            have hne : ch'.id ≠ id := by rw [hid']; exact hj
            simp only [Option.map_some, hne, if_false]

theorem channels_put_ids (c : Connection α) (ch : Channel α) :
    (c.put ch).channels.map Channel.id = c.channels.map Channel.id := by
  simp only [put, List.map_map]
  apply List.map_congr_left
  intro old _
  simp only [Function.comp_apply]
  split
  · rename_i h; rw [h]
  · rfl

theorem channels_modify_ids (c : Connection α) (id : ChannelId) (f : Channel α → Channel α × β) :
    (c.modify id f).1.channels.map Channel.id = c.channels.map Channel.id := by
  unfold modify
  split
  · exact channels_put_ids ..
  · rfl

end Connection

/-! ## Operations on channels keep their numbers -/

namespace Channel

variable {α : Type} (c : Channel α)

@[simp] theorem id_raise (s : Signal) : (c.raise s).1.id = c.id := by
  cases s <;> rfl

@[simp] theorem id_close : c.close.1.id = c.id := rfl

@[simp] theorem id_addListener (l : α) : (c.addListener l).1.id = c.id := rfl

@[simp] theorem id_removeListener (l : ListenerId) : (c.removeListener l).id = c.id := rfl

@[simp] theorem id_addRecoveryListener (l : α) : (c.addRecoveryListener l).1.id = c.id := rfl

@[simp] theorem id_removeRecoveryListener (l : ListenerId) :
    (c.removeRecoveryListener l).id = c.id := rfl

theorem confirmSelect_ok {c c' : Channel α} (h : c.confirmSelect = .ok c') :
    c.isOpen = true ∧ c' = { c with confirming := true } := by
  unfold confirmSelect at h
  split at h
  · rename_i ho; cases h; exact ⟨ho, rfl⟩
  · cases h

end Channel

namespace Client

variable {α : Type} {c : Client} {s s' : SupervisorId}

/-! ## Supervisors -/

@[simp] theorem supervisor_record (c : Client) (r : Log.Record) (s : SupervisorId) :
    (c.record r).supervisor s = c.supervisor s := rfl

@[simp] theorem supervisor_onChannel (c : Client) (id : ChannelId)
    (f : Channel Listener → Channel Listener × Deliveries Listener) (s : SupervisorId) :
    (c.onChannel id f).supervisor s = c.supervisor s := rfl

@[simp] theorem supervisor_close (c : Client) (id : ChannelId) (s : SupervisorId) :
    (c.close id).supervisor s = c.supervisor s := rfl

theorem supervisor_modify (c : Client) (s s' : SupervisorId) (f : Supervisor → Supervisor) :
    (c.modify s f).supervisor s' =
      if s' = s ∧ s.number < c.supervisors.length then f (c.supervisor s) else c.supervisor s' := by
  simp only [supervisor, modify, List.getD_eq_getElem?_getD, List.getElem?_modify]
  by_cases hs : s' = s
  · subst s'
    by_cases hl : s.number < c.supervisors.length
    · simp [hl]
    · simp [hl]
  · have hn : s.number ≠ s'.number := by
      intro h; exact hs (by cases s; cases s'; simp_all)
    simp [hs, hn]

theorem supervisor_modify_of_ne (h : s' ≠ s) (f : Supervisor → Supervisor) :
    (c.modify s f).supervisor s' = c.supervisor s' := by
  simp [supervisor_modify, h]

theorem modify_of_fixed {s : SupervisorId} {f : Supervisor → Supervisor}
    (h : f (c.supervisor s) = c.supervisor s) : c.modify s f = c := by
  have hm : c.supervisors.modify s.number f = c.supervisors := by
    apply List.ext_getElem?
    intro n
    rw [List.getElem?_modify]
    split
    · rename_i hn
      subst hn
      simp only [supervisor, List.getD_eq_getElem?_getD] at h
      cases hs : c.supervisors[s.number]? with
      | none => rfl
      | some v => simpa [hs] using h
    · simp
  simp only [modify, hm]

theorem supervisor_of_le (h : c.supervisors.length ≤ s.number) : c.supervisor s = {} := by
  simp [supervisor, h]

theorem lt_of_supervisor_ne (h : c.supervisor s ≠ {}) : s.number < c.supervisors.length :=
  Nat.lt_of_not_le fun hle => h (supervisor_of_le hle)

@[simp] theorem length_modify (c : Client) (s : SupervisorId) (f : Supervisor → Supervisor) :
    (c.modify s f).supervisors.length = c.supervisors.length := by
  simp [modify]

/-- A change that leaves a new supervisor as it is can be seen without asking whether there is one. -/
theorem supervisor_modify_eq (c : Client) (s s' : SupervisorId) {f : Supervisor → Supervisor}
    (hf : f {} = {}) :
    (c.modify s f).supervisor s' = if s' = s then f (c.supervisor s) else c.supervisor s' := by
  rw [supervisor_modify]
  by_cases hs : s' = s
  · subst s'
    by_cases hl : s.number < c.supervisors.length
    · simp [hl]
    · rw [supervisor_of_le (by omega)]
      simp [hl, hf]
  · simp [hs]

theorem supervisor_addSupervisor (c : Client) (o : Options) (s : SupervisorId) :
    (c.addSupervisor o).1.supervisor s =
      if s.number = c.supervisors.length then { options := o } else c.supervisor s := by
  simp only [supervisor, addSupervisor, List.getD_eq_getElem?_getD]
  by_cases he : s.number = c.supervisors.length
  · simp [he]
  · by_cases hl : s.number < c.supervisors.length
    · simp [he, List.getElem?_append_left hl]
    · rw [List.getElem?_eq_none (by simp only [List.length_append, List.length_singleton]; omega),
        List.getElem?_eq_none (by omega), if_neg he]

/-- A supervisor that is marked as disposed of still holds what it held. -/
theorem held_modify_disposed (c : Client) (s s' : SupervisorId) :
    ((c.modify s ({ · with disposed := true })).supervisor s').held = (c.supervisor s').held ∧
      ((c.modify s ({ · with disposed := true })).supervisor s').options = (c.supervisor s').options := by
  rw [supervisor_modify]
  split
  · rename_i hs; rw [hs.1]; exact ⟨rfl, rfl⟩
  · exact ⟨rfl, rfl⟩

/-! ## Channels -/

theorem channel?_onChannel (c : Client) (id j : ChannelId)
    {f : Channel Listener → Channel Listener × Deliveries Listener} (hf : ∀ ch, (f ch).1.id = ch.id) :
    (c.onChannel id f).connection.channel? j =
      if j = id then (c.connection.channel? id).map (fun ch => (f ch).1) else c.connection.channel? j :=
  Connection.channel?_modify c.connection id j hf

theorem ids_onChannel (c : Client) (id : ChannelId)
    (f : Channel Listener → Channel Listener × Deliveries Listener) :
    (c.onChannel id f).connection.channels.map Channel.id = c.connection.channels.map Channel.id :=
  Connection.channels_modify_ids c.connection id f

@[simp] theorem connection_record (c : Client) (r : Log.Record) :
    (c.record r).connection = c.connection := rfl

@[simp] theorem connection_modify (c : Client) (s : SupervisorId) (f : Supervisor → Supervisor) :
    (c.modify s f).connection = c.connection := rfl

theorem channel?_close (c : Client) (id j : ChannelId) :
    (c.close id).connection.channel? j =
      if j = id then (c.connection.channel? id).map (fun ch => ch.close.1) else c.connection.channel? j :=
  channel?_onChannel c id j (fun _ => rfl)

/-- A supervisor lets go of a channel. -/
def release (h : Held) (ch : Channel Listener) : Channel Listener :=
  (ch.close.1.removeListener h.listener).removeRecoveryListener h.recoveryListener

@[simp] theorem id_release (h : Held) (ch : Channel Listener) : (release h ch).id = ch.id := rfl

theorem closeHeld_of_none (h : (c.supervisor s).held = none) : c.closeHeld s = c := by
  simp [closeHeld, h]

theorem supervisor_closeHeld (c : Client) (s s' : SupervisorId) :
    (c.closeHeld s).supervisor s' =
      if s' = s then { c.supervisor s with held := none } else c.supervisor s' := by
  unfold closeHeld
  split
  · rename_i h
    by_cases hs : s' = s
    · subst s'
      simp only [if_true]
      cases hc : c.supervisor s
      rw [hc] at h
      simp_all
    · simp [hs]
  · exact supervisor_modify_eq c s s' rfl

@[simp] theorem length_closeHeld (c : Client) (s : SupervisorId) :
    (c.closeHeld s).supervisors.length = c.supervisors.length := by
  unfold closeHeld
  split
  · rfl
  · exact length_modify ..

@[simp] theorem cancelled_closeHeld (c : Client) (s : SupervisorId) :
    (c.closeHeld s).cancelled = c.cancelled := by
  unfold closeHeld; split <;> rfl

theorem channel?_closeHeld {h : Held} (hh : (c.supervisor s).held = some h) (j : ChannelId) :
    (c.closeHeld s).connection.channel? j =
      if j = h.channel then (c.connection.channel? j).map (release h) else c.connection.channel? j := by
  simp only [closeHeld, hh, connection_record]
  rw [channel?_onChannel _ _ _ (by intro ch; rfl), channel?_close, channel?_close]
  by_cases hj : j = h.channel
  · subst j
    simp only [if_true, connection_modify, Option.map_map]
    rfl
  · simp [hj]

theorem ids_closeHeld (c : Client) (s : SupervisorId) :
    (c.closeHeld s).connection.channels.map Channel.id = c.connection.channels.map Channel.id := by
  cases hh : (c.supervisor s).held with
  | none => rw [closeHeld_of_none hh]
  | some h =>
      simp only [closeHeld, hh, connection_record]
      rw [ids_onChannel, close, ids_onChannel, connection_modify]

/-! ## Opening and attaching -/

/-- An opening either uses up a failure or adds a channel behind the others. -/
theorem openChannel_cases (c : Client) :
    (∃ e rest, c.connection.failures = e :: rest ∧
      c.openChannel = ({ c with connection := { c.connection with failures := rest } }, .error e)) ∨
    (∃ id : ChannelId, id = ⟨c.connection.channels.length + 1⟩ ∧
      c.openChannel = ({ c with
        connection := { c.connection with
          channels := c.connection.channels ++ [{ id, recoverable := c.connection.recoverable }] }
        log := c.log ++ [Connection.openLog id] }, .ok id)) := by
  cases hf : c.connection.failures with
  | nil =>
      refine .inr ⟨_, rfl, ?_⟩
      simp only [openChannel, Connection.openChannel, hf, record]
  | cons e rest =>
      refine .inl ⟨e, rest, rfl, ?_⟩
      simp only [openChannel, Connection.openChannel, hf]

/-- A new channel is open and has a number of its own, where channels were numbered as they were opened. -/
theorem channel?_openChannel {id : ChannelId}
    (hn : ∀ j ∈ c.connection.channels.map Channel.id, j.number ≤ c.connection.channels.length)
    (h : c.openChannel.2 = .ok id) : c.connection.channel? id = none ∧ ∀ j, c.openChannel.1.connection.channel? j =
      if j = id then some { id, recoverable := c.connection.recoverable } else c.connection.channel? j := by
  rcases openChannel_cases c with ⟨e, rest, -, ho⟩ | ⟨new, hnew, ho⟩
  · rw [ho] at h
    cases h
  · obtain rfl : new = id := by
      rw [ho] at h
      cases h
      rfl
    have hfresh : c.connection.channel? new = none := by
      rw [Connection.channel?, List.find?_eq_none]
      intro ch hch
      have := hn ch.id (List.mem_map_of_mem hch)
      simp only [decide_eq_true_eq]
      rintro hid
      rw [hid, hnew] at this
      simp only at this
      omega
    refine ⟨hfresh, fun j => ?_⟩
    rw [ho]
    simp only [Connection.channel?, List.find?_append]
    split
    · rename_i hj
      rw [← Connection.channel?, hj, hfresh]
      simp
    · rename_i hj
      simp [Ne.symm hj]

/-- Channels stay numbered as they were opened. -/
theorem numbered_of_ids {c' : Client}
    (hids : c'.connection.channels.map Channel.id = c.connection.channels.map Channel.id)
    (h : ∀ id ∈ c.connection.channels.map Channel.id, id.number ≤ c.connection.channels.length) :
    ∀ id ∈ c'.connection.channels.map Channel.id, id.number ≤ c'.connection.channels.length := by
  have hlen : c'.connection.channels.length = c.connection.channels.length := by
    simpa using congrArg List.length hids
  rwa [hids, hlen]

theorem numbered_openChannel
    (h : ∀ id ∈ c.connection.channels.map Channel.id, id.number ≤ c.connection.channels.length) :
    ∀ id ∈ c.openChannel.1.connection.channels.map Channel.id,
      id.number ≤ c.openChannel.1.connection.channels.length := by
  rcases openChannel_cases c with ⟨e, rest, -, ho⟩ | ⟨new, hnew, ho⟩
  · rw [ho]
    exact h
  · rw [ho]
    intro id hid
    simp only [List.map_append, List.mem_append, List.map_cons, List.map_nil, List.mem_singleton,
      List.length_append, List.length_singleton] at hid ⊢
    rcases hid with hid | rfl
    · exact Nat.le_succ_of_le (h id hid)
    · exact Nat.le_of_eq (by rw [hnew])

/-- A supervisor listens to a channel. -/
def wire (f : Forwarder) (ch : Channel Listener) : Channel Listener :=
  { ch with
    nextListener := ch.nextListener + 2
    listeners := ch.listeners ++ [(⟨ch.nextListener + 1⟩, .forwarder f)]
    recoveryListeners := ch.recoveryListeners ++ [(⟨ch.nextListener⟩, .forwarder f)] }

/-- The listeners of a supervisor on a channel that it is to hold. -/
def handles (ch : Channel Listener) : Held :=
  ⟨ch.id, ⟨ch.nextListener + 1⟩, ⟨ch.nextListener⟩⟩

theorem confirmSelect_ok {c c' : Client} {id : ChannelId} (h : c.confirmSelect id = .ok c') :
    ∃ ch, c.connection.channel? id = some ch ∧ ch.isOpen = true ∧
      c' = { c with connection := c.connection.put { ch with confirming := true } } := by
  unfold confirmSelect at h
  split at h
  · cases h
  · rename_i ch hc
    cases hk : ch.confirmSelect with
    | error e => simp only [hk, bind, Except.bind] at h; cases h
    | ok ch' =>
        obtain ⟨ho, rfl⟩ := Channel.confirmSelect_ok hk
        simp only [hk, bind, Except.bind] at h
        cases h
        exact ⟨ch, hc, ho, rfl⟩

theorem channel?_confirmSelect {c c' : Client} {id : ChannelId} {ch : Channel Listener}
    (h : c.confirmSelect id = .ok c') (hc : c.connection.channel? id = some ch) (j : ChannelId) :
    c'.connection.channel? j =
      if j = id then some { ch with confirming := true } else c.connection.channel? j := by
  obtain ⟨ch', hc', -, rfl⟩ := confirmSelect_ok h
  rw [hc] at hc'
  cases hc'
  have hid := Connection.id_of_channel? hc
  simp only [Connection.channel?_put, hid]
  by_cases hj : j = id
  · subst j; simp [hc, hid]
  · cases hj' : c.connection.channel? j with
    | none => simp [hj]
    | some old =>
        have hne : old.id ≠ id := by rw [Connection.id_of_channel? hj']; exact hj
        simp [hj, hne]

theorem channel?_hold {c : Client} {id : ChannelId} {ch : Channel Listener}
    (hc : c.connection.channel? id = some ch) (s : SupervisorId) (j : ChannelId) :
    (c.hold s id).connection.channel? j =
      if j = id then some (wire ⟨s, id, (c.supervisor s).options.confirms⟩ ch)
      else c.connection.channel? j := by
  simp only [hold, connection_record, connection_modify]
  rw [Connection.channel?_modify _ _ _ (by intro ch; rfl), hc]
  rfl

theorem supervisors_hold {c : Client} {id : ChannelId} {ch : Channel Listener}
    (hc : c.connection.channel? id = some ch) (s : SupervisorId) :
    (c.hold s id).supervisors =
      c.supervisors.modify s.number ({ · with held := some (handles ch), everHeld := true }) := by
  have hid := Connection.id_of_channel? hc
  simp only [hold, Connection.modify, hc, record, modify, Option.map_some, handles, hid]
  rfl

theorem ids_hold (c : Client) (s : SupervisorId) (id : ChannelId) :
    (c.hold s id).connection.channels.map Channel.id = c.connection.channels.map Channel.id := by
  simp only [hold, connection_record, connection_modify]
  exact Connection.channels_modify_ids c.connection id _

/-- Attaching either closes the channel or makes the supervisor hold it, with confirmations if they are
asked for. -/
theorem attach_cases (c : Client) (s : SupervisorId) (id : ChannelId) :
    (∃ e, c.attach s id = (c.close id, .error e)) ∨
    (∃ ch c', c.connection.channel? id = some ch ∧ ch.recoverable = true ∧
      ((c.supervisor s).options.confirms = true → ch.isOpen = true) ∧
      (if (c.supervisor s).options.confirms then c.confirmSelect id else .ok c) = .ok c' ∧
      c.attach s id = (c'.hold s id, .ok ())) := by
  cases hc : c.connection.channel? id with
  | none => exact .inl ⟨_, by simp only [attach, hc]; rfl⟩
  | some ch =>
      cases hr : ch.recoverable with
      | false => exact .inl ⟨_, by simp only [attach, hc, Option.any_some, hr]; rfl⟩
      | true =>
          cases hk : if (c.supervisor s).options.confirms then c.confirmSelect id else .ok c with
          | error e => exact .inl ⟨e, by simp only [attach, hc, Option.any_some, hr, hk]; rfl⟩
          | ok c' =>
              refine .inr ⟨ch, c', rfl, hr, ?_, rfl, ?_⟩
              · intro ho
                rw [if_pos ho] at hk
                obtain ⟨ch', hc', ho', -⟩ := confirmSelect_ok hk
                rw [hc] at hc'
                cases hc'
                exact ho'
              · simp only [attach, hc, Option.any_some, hr, hk]; rfl

theorem attach_error {c' : Client} {id : ChannelId} {e : TransportError}
    (h : c.attach s id = (c', .error e)) : c' = c.close id := by
  rcases attach_cases c s id with ⟨e', he⟩ | ⟨ch, c₁, -, -, -, -, he⟩
  · rw [he] at h; cases h; rfl
  · rw [he] at h; cases h

/-- What attaching comes to when it succeeds. -/
structure Attaches (c : Client) (s : SupervisorId) (id : ChannelId) (ch : Channel Listener) (c' : Client) :
    Prop where
  known : c.connection.channel? id = some ch
  recoverable : ch.recoverable = true
  channels : ∀ j, c'.connection.channel? j =
    if j = id then some (wire ⟨s, id, (c.supervisor s).options.confirms⟩
      { ch with confirming := (c.supervisor s).options.confirms || ch.confirming })
    else c.connection.channel? j
  ids : c'.connection.channels.map Channel.id = c.connection.channels.map Channel.id
  supervisors : c'.supervisors =
    c.supervisors.modify s.number ({ · with held := some (handles ch), everHeld := true })
  cancelled : c'.cancelled = c.cancelled

theorem attach_ok {c' : Client} {id : ChannelId} (h : c.attach s id = (c', .ok ())) :
    ∃ ch, c.Attaches s id ch c' := by
  rcases attach_cases c s id with ⟨e, he⟩ | ⟨ch, c₁, hc, hr, -, hk, he⟩
  · rw [he] at h; cases h
  · rw [he] at h
    cases h
    refine ⟨ch, ?_⟩
    split at hk <;> rename_i ho
    · have hc₁ := channel?_confirmSelect hk hc
      have hid := hc₁ id
      rw [if_pos rfl] at hid
      obtain ⟨ch', -, -, rfl⟩ := confirmSelect_ok hk
      refine ⟨hc, hr, fun j => ?_, ?_, supervisors_hold hid s, rfl⟩
      · have hor : ((c.supervisor s).options.confirms || ch.confirming) = true := by rw [ho, Bool.true_or]
        rw [channel?_hold hid, hc₁, hor]
        split <;> rfl
      · exact (ids_hold ..).trans (Connection.channels_put_ids ..)
    · cases hk
      refine ⟨hc, hr, fun j => ?_, ids_hold .., supervisors_hold hc s, rfl⟩
      have hor : ((c.supervisor s).options.confirms || ch.confirming) = ch.confirming := by
        rw [eq_false_of_ne_true ho, Bool.false_or]
      rw [channel?_hold hc, hor]

namespace Attaches

variable {c' : Client} {id : ChannelId} {ch : Channel Listener}

theorem supervisor (h : c.Attaches s id ch c') (s' : SupervisorId) :
    c'.supervisor s' = if s' = s ∧ s.number < c.supervisors.length then
      { c.supervisor s with held := some (handles ch), everHeld := true } else c.supervisor s' := by
  rw [← supervisor_modify c s s' ({ · with held := some (handles ch), everHeld := true })]
  simp only [Client.supervisor, h.supervisors, modify]

end Attaches

/-! ## Held channels -/

@[simp] theorem held_closeHeld (c : Client) (s s' : SupervisorId) :
    ((c.closeHeld s).supervisor s').held = if s' = s then none else (c.supervisor s').held := by
  rw [supervisor_closeHeld]
  split <;> rfl

@[simp] theorem supervisor_openChannel (c : Client) (s : SupervisorId) :
    c.openChannel.1.supervisor s = c.supervisor s := by
  rcases openChannel_cases c with ⟨e, rest, -, h⟩ | ⟨id, -, h⟩ <;> (rw [h]; rfl)

end Client

end BrokerClient
