import BrokerClient.Proofs.Scene.Ledger

/-!
# Clients in step with a ledger

A client `Matches` a ledger that has its events, the state of its channels, and the supervisors that hold them. Each
operation of the client keeps it in step when the act that it amounts to is entered in the ledger.
-/
namespace BrokerClient

namespace Client

variable {c c' : Client} {r r' : Ledger} {s : SupervisorId} {id : ChannelId} {k : Standing} {ch : Channel Listener}

/-- The ledger has the events of the client, and its channels with those who hold them. -/
structure Matches (c : Client) (r : Ledger) : Prop where
  events : c.events = r.events
  numbered : ∀ id ∈ c.connection.channels.map Channel.id, id.number ≤ c.connection.channels.length
  unknown : ∀ id, c.connection.channel? id = none → r.standing id = {}
  once : ∀ id, (r.standing id).holders.Nodup
  holders : ∀ id s b, (s, b) ∈ (r.standing id).holders ↔
    (c.supervisor s).channel? = some id ∧ (c.supervisor s).options.confirms = b
  shows : ∀ id ch, c.connection.channel? id = some ch → Shows id ch (r.standing id)
  owned : ∀ s hd ch, (c.supervisor s).held = some hd → c.connection.channel? hd.channel = some ch →
    Owned s ch.listeners hd.listener ∧ Owned s ch.recoveryListeners hd.recoveryListener

namespace Matches

theorem known {hd : Held} (hm : c.Matches r) (hh : (c.supervisor s).held = some hd) :
    ∃ ch, c.connection.channel? hd.channel = some ch := by
  cases hc : c.connection.channel? hd.channel with
  | some ch => exact ⟨ch, rfl⟩
  | none =>
      have hin := (hm.holders hd.channel s _).2 ⟨by rw [Supervisor.channel?, hh]; rfl, rfl⟩
      rw [hm.unknown _ hc] at hin
      cases hin

theorem start (recoverable : Bool) : Matches { connection := { recoverable } } {} where
  events := rfl
  numbered id hid := by cases hid
  unknown _ _ := rfl
  once _ := List.nodup_nil
  holders id s b := by simp [supervisor, Supervisor.channel?]
  shows id ch hc := by cases hc
  owned s hd ch hh := by cases hh

/-- Channels, events, holders and their options are all that matters. -/
theorem same (hm : c.Matches r) (hc : c'.connection.channels = c.connection.channels) (he : c'.events = c.events)
    (hs : ∀ s, (c'.supervisor s).held = (c.supervisor s).held)
    (ho : ∀ s hd, (c.supervisor s).held = some hd → (c'.supervisor s).options = (c.supervisor s).options) :
    c'.Matches r where
  events := he.trans hm.events
  numbered := by rw [hc]; exact hm.numbered
  unknown id hid := hm.unknown id (by simpa only [Connection.channel?, hc] using hid)
  once := hm.once
  holders id s b := by
    rw [hm.holders, Supervisor.channel?, Supervisor.channel?, hs]
    cases hh : (c.supervisor s).held with
    | none => simp
    | some hd => rw [ho s hd hh]
  shows id := by simpa only [Connection.channel?, hc] using hm.shows id
  owned s := by simpa only [Connection.channel?, hc, hs] using hm.owned s

/-- Something is done to one channel, whose holders go on holding it. -/
theorem touch {f : Channel Listener → Channel Listener} {n : Nat} (hm : c.Matches r)
    (hs : ∀ s, c'.supervisor s = c.supervisor s)
    (hids : c'.connection.channels.map Channel.id = c.connection.channels.map Channel.id)
    (hch : ∀ j, c'.connection.channel? j =
      if j = id then (c.connection.channel? id).map f else c.connection.channel? j)
    (hr : ∀ j, r'.standing j = if j = id then k else r.standing j) (he : c'.events = r'.events)
    (hk : k.holders = (r.standing id).holders) (hn : k.closes = (r.standing id).closes + n)
    (hf : ∀ ch, c.connection.channel? id = some ch → (f ch).isOpen = k.isOpen ∧
      ch.nextListener ≤ (f ch).nextListener ∧ ∀ ls rs m, Stands ch ls rs m → Stands (f ch) ls rs (m + n))
    (hu : c.connection.channel? id = none → k = {}) : c'.Matches r' where
  events := he
  numbered := numbered_of_ids hids hm.numbered
  unknown j hj := by
    rw [hch] at hj
    rw [hr]
    split at hj
    · rename_i hji
      rw [if_pos hji, hu (Option.map_eq_none_iff.1 hj)]
    · rename_i hji
      rw [if_neg hji, hm.unknown j hj]
  once j := by
    rw [hr]
    split
    · rw [hk]; exact hm.once id
    · exact hm.once j
  holders j s b := by
    rw [hs, ← hm.holders, hr]
    split
    · rename_i hji; rw [hk, hji]
    · rfl
  shows j ch hc := by
    rw [hch] at hc
    rw [hr]
    split at hc
    · rename_i hji
      obtain ⟨ch', hc', rfl⟩ := Option.map_eq_some_iff.1 hc
      obtain ⟨ho, hl, hst⟩ := hf ch' hc'
      have hshow := hm.shows id ch' hc'
      rw [if_pos hji, hji]
      exact hshow.visit (hst _ _ _ ⟨rfl, rfl, rfl⟩) (by rw [hn, hshow.closes]) ho hk hl
    · rename_i hji
      rw [if_neg hji]
      exact hm.shows j ch hc
  owned s hd ch hh hc := by
    rw [hs] at hh
    rw [hch] at hc
    split at hc
    · rename_i hji
      obtain ⟨ch', hc', rfl⟩ := Option.map_eq_some_iff.1 hc
      have hst := (hf ch' hc').2.2 _ _ _ ⟨rfl, rfl, rfl⟩
      obtain ⟨hl, hrl⟩ := hm.owned s hd ch' hh (hji ▸ hc')
      exact ⟨hl.sub fun x hx => hst.listeners ▸ hx, hrl.sub fun x hx => hst.recoveryListeners ▸ hx⟩
    · exact hm.owned s hd ch hh hc

theorem act {f : Channel Listener → Channel Listener × Deliveries Listener} {a : Act} {n : Nat} (hm : c.Matches r)
    (hc : c.connection.channel? id = some ch) (hid : ∀ ch, (f ch).1.id = ch.id)
    (hf : ∀ k, Shows id ch k → (f ch).1.isOpen = (k.after a).isOpen ∧ made (f ch).2 = k.heard id a ∧
      (k.after a).holders = k.holders ∧ (k.after a).closes = k.closes + n)
    (hl : ch.nextListener ≤ (f ch).1.nextListener)
    (hst : ∀ ls rs m, Stands ch ls rs m → Stands (f ch).1 ls rs (m + n)) :
    (c.onChannel id f).Matches (r.enter (id, a)) := by
  obtain ⟨ho, he, hk, hn⟩ := hf _ (hm.shows id ch hc)
  refine hm.touch (f := fun ch => (f ch).1) (fun _ => rfl) (ids_onChannel ..)
    (fun j => channel?_onChannel c id j hid) (fun _ => rfl) ?_ hk hn ?_ (by simp [hc])
  · rw [events_onChannel, hc, hm.events]
    exact congrArg (r.events ++ ·) he
  · intro ch' hc'
    obtain rfl := Option.some.inj (hc.symm.trans hc')
    exact ⟨ho, hl, hst⟩

theorem raise (hm : c.Matches r) (hk : c.knows id = true) (g : Signal) :
    (c.raise id g).Matches (r.enter (id, .raised g)) := by
  obtain ⟨ch, hc⟩ := Option.isSome_iff_exists.1 hk
  refine hm.act hc (fun ch => Channel.id_raise ch g) (n := 0) ?_ (by cases g <;> exact Nat.le_refl _)
    (fun _ _ _ h => h.raise g)
  intro k hs
  refine ⟨?_, hs.made_raise g, by cases g <;> rfl, by cases g <;> rfl⟩
  cases g with
  | ack | nack | returned => exact hs.isOpen
  | shutdown | recovery => rfl

theorem close (hm : c.Matches r) (hk : c.knows id = true) : (c.close id).Matches (r.enter (id, .closed)) := by
  obtain ⟨ch, hc⟩ := Option.isSome_iff_exists.1 hk
  exact hm.act hc (fun _ => rfl) (n := 1) (fun k hs => ⟨rfl, hs.made_close, rfl, rfl⟩) (Nat.le_refl _)
    (fun _ _ _ h => h.close)

theorem refuse (hm : c.Matches r) (hk : c.knows id = true) (s : SupervisorId) :
    (c.close id).Matches (r.enter (id, .refused s)) :=
  hm.close hk

/-- A visitor comes or goes. -/
theorem visit {f : Channel Listener → Channel Listener} (hm : c.Matches r) (hid : ∀ ch, (f ch).id = ch.id)
    (hf : ∀ ch, c.connection.channel? id = some ch → (f ch).isOpen = ch.isOpen ∧ ch.nextListener ≤ (f ch).nextListener ∧
      ∀ ls rs m, Stands ch ls rs m → Stands (f ch) ls rs m) : (c.onChannel id fun ch => (f ch, [])).Matches r := by
  refine hm.touch (f := f) (n := 0) (fun _ => rfl) (ids_onChannel ..) (fun j => channel?_onChannel c id j hid)
    (k := r.standing id) (fun j => ?_) ?_ rfl rfl (fun ch hc => ?_) (hm.unknown id)
  · split
    · rename_i hj; rw [hj]
    · rfl
  · rw [events_onChannel, ← hm.events]
    cases c.connection.channel? id <;> exact List.append_nil _
  · obtain ⟨ho, hl, hst⟩ := hf ch hc
    exact ⟨ho.trans (hm.shows id ch hc).isOpen, hl, hst⟩

theorem confirm (hm : c.Matches r) (hk : c.confirmSelect id = .ok c') : c'.Matches r := by
  obtain ⟨ch, hc, -, heq⟩ := confirmSelect_ok hk
  refine hm.touch (f := fun ch => { ch with confirming := true }) (n := 0) (k := r.standing id)
    (fun _ => by rw [heq]; rfl) (by rw [heq]; exact Connection.channels_put_ids ..)
    (fun j => by rw [channel?_confirmSelect hk hc, hc]; rfl) (fun j => ?_) (by rw [heq]; exact hm.events) rfl rfl
    (fun ch hc => ⟨(hm.shows id ch hc).isOpen, Nat.le_refl _,
      fun _ _ _ h => ⟨h.listeners, h.recoveryListeners, h.closes⟩⟩)
    (hm.unknown id)
  split
  · rename_i hj; rw [hj]
  · rfl

theorem closeHeld {hd : Held} (hm : c.Matches r) (hh : (c.supervisor s).held = some hd) :
    (c.closeHeld s).Matches (r.enter (hd.channel, .released s)) := by
  obtain ⟨ch, hc⟩ := hm.known hh
  have hshow := hm.shows _ ch hc
  obtain ⟨hl, hrl⟩ := hm.owned s hd ch hh hc
  refine ⟨?events, numbered_of_ids (ids_closeHeld c s) hm.numbered, ?unknown, ?once, ?holders, ?shows, ?owned⟩
  case events =>
    rw [events_closeHeld hh, Client.close, events_onChannel, hc, hm.events]
    exact congrArg (r.events ++ ·) hshow.made_close
  case unknown =>
    intro j hj
    rw [channel?_closeHeld hh] at hj
    split at hj
    · rename_i hji
      rw [hji, hc] at hj
      cases hj
    · rename_i hji
      exact (if_neg hji).trans (hm.unknown j hj)
  case once =>
    intro j
    simp only [Ledger.enter]
    split
    · exact (hm.once _).filter _
    · exact hm.once j
  case holders =>
    intro j s' b
    rw [supervisor_closeHeld]
    simp only [Ledger.enter]
    by_cases hs' : s' = s
    · -- The supervisor is struck off this channel and was on no other one.
      rw [if_pos hs']
      refine iff_of_false ?_ (by rintro ⟨hj, -⟩; cases hj)
      split
      · simp [Standing.after, hs']
      · rename_i hji
        rw [hm.holders, hs', Supervisor.channel?, hh]
        rintro ⟨hj, -⟩
        exact hji (Option.some.inj hj).symm
    · rw [if_neg hs', ← hm.holders]
      split
      · rename_i hji
        simp [Standing.after, hs', hji]
      · rfl
  case shows =>
    intro j ch' hc'
    rw [channel?_closeHeld hh] at hc'
    simp only [Ledger.enter]
    split at hc'
    · rename_i hji
      rw [hji, hc] at hc'
      cases hc'
      rw [if_pos hji, hji]
      exact hshow.release hl hrl
    · rename_i hji
      rw [if_neg hji]
      exact hm.shows j ch' hc'
  case owned =>
    intro s' hd' ch' hh' hc'
    have hne : s' ≠ s ∧ (c.supervisor s').held = some hd' := by
      rw [held_closeHeld] at hh'
      split at hh'
      · cases hh'
      · rename_i hne; exact ⟨hne, hh'⟩
    rw [channel?_closeHeld hh] at hc'
    split at hc'
    · rename_i hji
      rw [hji, hc] at hc'
      cases hc'
      obtain ⟨hl', hrl'⟩ := hm.owned s' hd' ch hne.2 (hji ▸ hc)
      exact ⟨hl'.sub fun x hx => (List.mem_filter.1 (forwarders_filter .. ▸ hx)).1,
        hrl'.sub fun x hx => (List.mem_filter.1 (forwarders_filter .. ▸ hx)).1⟩
    · exact hm.owned s' hd' ch' hne.2 hc'

theorem openChannel (hm : c.Matches r) : c.openChannel.1.Matches r := by
  rcases openChannel_cases c with ⟨e, rest, -, ho⟩ | ⟨new, hnew, ho⟩
  · rw [ho]
    exact hm.same rfl rfl (fun _ => rfl) (fun _ _ _ => rfl)
  · obtain ⟨hfresh, hch⟩ := channel?_openChannel hm.numbered (show c.openChannel.2 = .ok new by rw [ho])
    simp only [ho] at hch
    rw [ho]
    have hnumbered := numbered_openChannel hm.numbered
    rw [ho] at hnumbered
    refine ⟨hm.events, hnumbered, ?unknown, hm.once, hm.holders, ?shows, ?owned⟩
    case unknown =>
      intro id hid
      rw [hch] at hid
      split at hid
      · cases hid
      · exact hm.unknown id hid
    case shows =>
      intro id ch hc
      rw [hch] at hc
      split at hc
      · rename_i hid
        cases hc
        rw [hid, hm.unknown new hfresh]
        exact ⟨rfl, rfl, rfl, rfl, by simp [forwarders]⟩
      · exact hm.shows id ch hc
    case owned =>
      intro s hd ch hh hc
      obtain ⟨old, hold⟩ := hm.known hh
      have hne : hd.channel ≠ new := by
        rintro heq
        rw [heq, hfresh] at hold
        cases hold
      rw [hch, if_neg hne] at hc
      exact hm.owned s hd ch hh hc

theorem attach (hm : c.Matches r) (hs : s.number < c.supervisors.length) (hn : (c.supervisor s).held = none)
    (ha : c.attach s id = (c', .ok ())) : c'.Matches (r.enter (id, .held s (c.supervisor s).options.confirms)) := by
  obtain ⟨ch, hat⟩ := attach_ok ha
  have hself : (c'.supervisor s).held = some (handles ch) := by rw [hat.supervisor, if_pos ⟨rfl, hs⟩]
  have hopt : (c'.supervisor s).options = (c.supervisor s).options := by rw [hat.supervisor, if_pos ⟨rfl, hs⟩]
  have hother {s' : SupervisorId} (hne : s' ≠ s) : c'.supervisor s' = c.supervisor s' := by
    rw [hat.supervisor, if_neg (fun hm => hne hm.1)]
  have hid : ch.id = id := Connection.id_of_channel? hat.known
  have hnone (j : ChannelId) (b : Bool) : (s, b) ∉ (r.standing j).holders := by
    rw [hm.holders, Supervisor.channel?, hn]
    rintro ⟨hj, -⟩
    cases hj
  have hshow := hm.shows id ch hat.known
  refine ⟨?events, numbered_of_ids hat.ids hm.numbered, ?unknown, ?once, ?holders, ?shows, ?owned⟩
  case events =>
    rw [events_attach ha, hm.events]
    exact (List.append_nil _).symm
  case unknown =>
    intro j hj
    rw [hat.channels] at hj
    split at hj
    · cases hj
    · rename_i hji
      exact (if_neg hji).trans (hm.unknown j hj)
  case once =>
    intro j
    simp only [Ledger.enter]
    split
    · exact List.nodup_append.2 ⟨hm.once id, by simp, fun x hx y hy hxy =>
        hnone id _ (List.mem_singleton.1 hy ▸ hxy ▸ hx)⟩
    · exact hm.once j
  case holders =>
    intro j s' b
    simp only [Ledger.enter]
    by_cases hs' : s' = s
    · rw [hs', Supervisor.channel?, hself, hopt]
      simp only [Option.map_some, handles, hid, Option.some.injEq]
      split
      · rename_i hji
        simp [Standing.after, hnone, hji, eq_comm]
      · rename_i hji
        simp [hnone, Ne.symm hji]
    · rw [hother hs', ← hm.holders]
      split
      · rename_i hji
        simp [Standing.after, hs', hji]
      · rfl
  case shows =>
    intro j ch' hc'
    rw [hat.channels] at hc'
    simp only [Ledger.enter]
    split at hc'
    · rename_i hji
      cases hc'
      rw [if_pos hji, hji]
      have hconf : Shows id { ch with confirming := (c.supervisor s).options.confirms || ch.confirming }
          (r.standing id) :=
        ⟨hshow.isOpen, hshow.closes, hshow.listeners, hshow.recoveryListeners, hshow.numbered⟩
      exact hconf.wire
    · rename_i hji
      rw [if_neg hji]
      exact hm.shows j ch' hc'
  case owned =>
    -- The numbers of the two new listeners are greater than those of all listeners so far.
    intro s' hd' ch' hh' hc'
    have hlt : ∀ x ∈ forwarders ch.listeners, x.1.number < ch.nextListener := fun x hx =>
      hshow.numbered x (List.mem_append_left _ hx)
    have hrlt : ∀ x ∈ forwarders ch.recoveryListeners, x.1.number < ch.nextListener := fun x hx =>
      hshow.numbered x (List.mem_append_right _ hx)
    rw [hat.channels] at hc'
    by_cases hs' : s' = s
    · rw [hs', hself] at hh'
      cases hh'
      rw [if_pos (show (handles ch).channel = id from hid)] at hc'
      cases hc'
      rw [hs']
      have hfresh : Owned s ch.listeners (handles ch).listener :=
        .fresh hshow.listeners (hnone id) fun x hx => Nat.lt_succ_of_lt (hlt x hx)
      have hrfresh : Owned s ch.recoveryListeners (handles ch).recoveryListener :=
        .fresh hshow.recoveryListeners (hnone id) hrlt
      exact ⟨hfresh.append (iff_of_true rfl rfl), hrfresh.append (iff_of_true rfl rfl)⟩
    · rw [hother hs'] at hh'
      split at hc'
      · rename_i hji
        cases hc'
        obtain ⟨hl, hrl⟩ := hm.owned s' hd' ch hh' (hji ▸ hat.known)
        have hin := (hm.holders id s' _).2 ⟨by rw [Supervisor.channel?, hh', Option.map_some, hji], rfl⟩
        have hns : owner? (.forwarder ⟨s, id, (c.supervisor s).options.confirms⟩) ≠ some s' := fun ho =>
          hs' (Option.some.inj ho).symm
        have hne := hl.lt hshow.listeners hin hlt
        have hrne := hrl.lt hshow.recoveryListeners hin hrlt
        exact ⟨hl.append (iff_of_false (fun heq => Nat.not_succ_lt_self (heq ▸ hne)) hns),
          hrl.append (iff_of_false (fun heq => Nat.lt_irrefl _ (heq ▸ hrne)) hns)⟩
      · exact hm.owned s' hd' ch' hh' hc'

end Matches

end Client

end BrokerClient
