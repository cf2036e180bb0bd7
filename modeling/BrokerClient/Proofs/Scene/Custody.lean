import BrokerClient.Proofs.Scene.Holding

/-!
# Custody of channels

Every channel of a connection is in the custody of the supervisor that holds it, or else it is closed for good
and nobody but visitors listens to it (`Custody`). A channel that was just opened is loose until it is attached
or closed.
-/
namespace BrokerClient

def Deed.closes (id : ChannelId) : Deed → Bool
  | .close ch => ch = id
  | _ => false

namespace Client

variable {α : Type} {c c' : Client} {s : SupervisorId} {id : ChannelId} {visits visits' : ChannelId → Nat}
  {loose : Option ChannelId}

/-! ## One channel -/

/-- The listeners of supervisors in a list. -/
def forwarders (ls : List (ListenerId × Listener)) : List (ListenerId × Listener) :=
  ls.filter (fun l => l.2 ≠ .visitor)

/-- A channel with the listeners and recovery listeners of supervisors, and the closes so far. -/
structure Stands (ch : Channel Listener) (ls rs : List (ListenerId × Listener)) (n : Nat) : Prop where
  listeners : forwarders ch.listeners = ls
  recoveryListeners : forwarders ch.recoveryListeners = rs
  closes : ch.closeCalls = n

theorem forwarders_append (ls rs : List (ListenerId × Listener)) :
    forwarders (ls ++ rs) = forwarders ls ++ forwarders rs :=
  List.filter_append ..

theorem forwarders_filter (ls : List (ListenerId × Listener)) (l : ListenerId) :
    forwarders (ls.filter (fun x => x.1 ≠ l)) = (forwarders ls).filter (fun x => x.1 ≠ l) := by
  simp only [forwarders, List.filter_filter]
  congr 1
  funext x
  exact Bool.and_comm ..

/-- Who takes down a listener that is not one of a supervisor leaves those of supervisors. -/
theorem forwarders_remove {ls : List (ListenerId × Listener)} {l : ListenerId} (h : isForwarders l ls = false) :
    forwarders (ls.filter (fun x => x.1 ≠ l)) = forwarders ls := by
  rw [forwarders_filter, List.filter_eq_self]
  intro x hx
  obtain ⟨hx, hv⟩ := List.mem_filter.1 hx
  simp only [isForwarders, List.any_eq_false, Bool.and_eq_true, not_and] at h
  have := h x hx
  simp only [ne_eq, decide_eq_true_eq] at hv this ⊢
  exact fun hl => this hl hv

namespace Stands

variable {ch : Channel Listener} {ls rs : List (ListenerId × Listener)} {n : Nat}

theorem raise (h : Stands ch ls rs n) (g : Signal) : Stands (ch.raise g).1 ls rs n := by
  cases g <;> exact ⟨h.listeners, h.recoveryListeners, h.closes⟩

theorem close (h : Stands ch ls rs n) : Stands ch.close.1 ls rs (n + 1) :=
  ⟨h.listeners, h.recoveryListeners, congrArg (· + 1) h.closes⟩

theorem listen (h : Stands ch ls rs n) : Stands (ch.addListener .visitor).1 ls rs n := by
  refine ⟨?_, h.recoveryListeners, h.closes⟩
  simpa [Channel.addListener, forwarders] using h.listeners

theorem listenRecovery (h : Stands ch ls rs n) : Stands (ch.addRecoveryListener .visitor).1 ls rs n := by
  refine ⟨h.listeners, ?_, h.closes⟩
  simpa [Channel.addRecoveryListener, forwarders] using h.recoveryListeners

theorem unlisten {l : ListenerId} (h : Stands ch ls rs n) (hl : isForwarders l ch.listeners = false) :
    Stands (ch.removeListener l) ls rs n :=
  ⟨(forwarders_remove hl).trans h.listeners, h.recoveryListeners, h.closes⟩

theorem unlistenRecovery {l : ListenerId} (h : Stands ch ls rs n)
    (hl : isForwarders l ch.recoveryListeners = false) : Stands (ch.removeRecoveryListener l) ls rs n :=
  ⟨h.listeners, (forwarders_remove hl).trans h.recoveryListeners, h.closes⟩

theorem release {h : Held} {f : Listener} (hs : Stands ch [(h.listener, f)] [(h.recoveryListener, f)] n) :
    Stands (Client.release h ch) [] [] (n + 1) := by
  refine ⟨?_, ?_, congrArg (· + 1) hs.closes⟩
  · have hl : ch.close.1.listeners = ch.listeners := rfl
    exact (forwarders_filter ..).trans (by rw [hl, hs.listeners]; simp)
  · exact (forwarders_filter ..).trans (by
      rw [show (ch.close.1.removeListener h.listener).recoveryListeners = ch.recoveryListeners from rfl,
        hs.recoveryListeners]
      simp)

theorem wire (h : Stands ch [] [] n) (f : Forwarder) : Stands (Client.wire f ch)
    [((handles ch).listener, .forwarder f)] [((handles ch).recoveryListener, .forwarder f)] n := by
  refine ⟨?_, ?_, h.closes⟩
  · exact (forwarders_append ..).trans (by rw [h.listeners]; rfl)
  · exact (forwarders_append ..).trans (by rw [h.recoveryListeners]; rfl)

end Stands

/-! ## All channels -/

def forwarder (c : Client) (s : SupervisorId) (id : ChannelId) : Listener :=
  .forwarder ⟨s, id, (c.supervisor s).options.confirms⟩

/-- A channel that is held has the listeners of its holder and was closed by visitors only; any other one has
none of a supervisor and was closed once more. The channel `loose` is neither held nor closed yet. -/
structure Custody (c : Client) (visits : ChannelId → Nat) (loose : Option ChannelId) : Prop where
  numbered : ∀ id ∈ c.connection.channels.map Channel.id, id.number ≤ c.connection.channels.length
  unvisited : ∀ id, c.connection.channel? id = none → visits id = 0
  exclusive : ∀ s s' h h', (c.supervisor s).held = some h → (c.supervisor s').held = some h' →
    h.channel = h'.channel → s = s'
  settled : ∀ s h, (c.supervisor s).held = some h → loose ≠ some h.channel
  held : ∀ s h, (c.supervisor s).held = some h → ∃ ch, c.connection.channel? h.channel = some ch ∧
    Stands ch [(h.listener, c.forwarder s h.channel)] [(h.recoveryListener, c.forwarder s h.channel)]
      (visits h.channel)
  free : ∀ id ch, c.connection.channel? id = some ch → (∀ s h, (c.supervisor s).held = some h → h.channel ≠ id) →
    Stands ch [] [] (visits id + if loose = some id then 0 else 1)

namespace Custody

/-- Channels, holders and their options are all that matters. -/
theorem same (h : Custody c visits loose) (hc : c'.connection.channels = c.connection.channels)
    (hs : ∀ s, (c'.supervisor s).held = (c.supervisor s).held)
    (ho : ∀ s h, (c.supervisor s).held = some h → (c'.supervisor s).options = (c.supervisor s).options) :
    Custody c' visits loose where
  numbered := by rw [hc]; exact h.numbered
  unvisited id hid := h.unvisited id (by simpa only [Connection.channel?, hc] using hid)
  exclusive s s' := by simpa only [hs] using h.exclusive s s'
  settled s := by simpa only [hs] using h.settled s
  held s hd hh := by
    rw [hs] at hh
    simpa only [forwarder, ho s hd hh, Connection.channel?, hc] using h.held s hd hh
  free id := by simpa only [Connection.channel?, hc, hs] using h.free id

/-- A visitor does something to a channel, and closes it `k` times. -/
theorem visit {f : Channel Listener → Channel Listener} {k : Nat} (h : Custody c visits loose) (id : ChannelId)
    (hs : ∀ s, c'.supervisor s = c.supervisor s)
    (hids : c'.connection.channels.map Channel.id = c.connection.channels.map Channel.id)
    (hch : ∀ j, c'.connection.channel? j =
      if j = id then (c.connection.channel? id).map f else c.connection.channel? j)
    (hf : ∀ ch, c.connection.channel? id = some ch → ∀ ls rs n, Stands ch ls rs n → Stands (f ch) ls rs (n + k))
    (hv : ∀ j, visits' j = visits j + if j = id then k else 0)
    (hk : c.connection.channel? id = none → k = 0) : Custody c' visits' loose where
  numbered := numbered_of_ids hids h.numbered
  unvisited j hj := by
    rw [hch] at hj
    rw [hv]
    split at hj
    · rename_i hji
      have hj := Option.map_eq_none_iff.1 hj
      rw [if_pos hji, hji, h.unvisited id hj, hk hj]
    · rename_i hji
      rw [if_neg hji, h.unvisited j hj]
  exclusive s s' := by simpa only [hs] using h.exclusive s s'
  settled s := by simpa only [hs] using h.settled s
  held s hd hh := by
    rw [hs] at hh
    obtain ⟨ch, hc, hst⟩ := h.held s hd hh
    simp only [forwarder, hs, hv]
    rw [hch]
    split
    · rename_i hi
      rw [hi] at hc hst ⊢
      exact ⟨f ch, by rw [hc]; rfl, hf ch hc _ _ _ hst⟩
    · exact ⟨ch, hc, hst⟩
  free j ch hc hn := by
    simp only [hs] at hn
    rw [hch] at hc
    rw [hv]
    split at hc
    · rename_i hi
      obtain ⟨ch', hc', rfl⟩ := Option.map_eq_some_iff.1 hc
      rw [if_pos hi, Nat.add_right_comm]
      exact hf ch' hc' _ _ _ (h.free j ch' (hi ▸ hc') hn)
    · rename_i hi
      rw [if_neg hi]
      exact h.free j ch hc hn

theorem visitChannel {f : Channel Listener → Channel Listener × Deliveries Listener} {k : Nat}
    (h : Custody c visits loose) (hid : ∀ ch, (f ch).1.id = ch.id)
    (hf : ∀ ch, c.connection.channel? id = some ch →
      ∀ ls rs n, Stands ch ls rs n → Stands (f ch).1 ls rs (n + k))
    (hv : ∀ j, visits' j = visits j + if j = id then k else 0)
    (hk : c.connection.channel? id = none → k = 0) : Custody (c.onChannel id f) visits' loose :=
  h.visit id (f := fun ch => (f ch).1) (fun _ => rfl) (ids_onChannel ..)
    (fun j => channel?_onChannel c id j hid) hf hv hk

theorem closeHeld (h : Custody c visits loose) (s : SupervisorId) : Custody (c.closeHeld s) visits loose := by
  cases hh : (c.supervisor s).held with
  | none => rw [closeHeld_of_none hh]; exact h
  | some hd =>
      have hother {s' : SupervisorId} {h' : Held} (hh' : ((c.closeHeld s).supervisor s').held = some h') :
          s' ≠ s ∧ (c.supervisor s').held = some h' := by
        rw [held_closeHeld] at hh'
        split at hh'
        · cases hh'
        · rename_i hne; exact ⟨hne, hh'⟩
      obtain ⟨ch, hc, hst⟩ := h.held s hd hh
      refine ⟨numbered_of_ids (ids_closeHeld c s) h.numbered, ?unvisited, ?exclusive, ?settled, ?held, ?free⟩
      case unvisited =>
        intro id hid
        rw [channel?_closeHeld hh] at hid
        split at hid
        · exact h.unvisited id (Option.map_eq_none_iff.1 hid)
        · exact h.unvisited id hid
      case exclusive =>
        intro s₁ s₂ h₁ h₂ hh₁ hh₂
        exact h.exclusive s₁ s₂ h₁ h₂ (hother hh₁).2 (hother hh₂).2
      case settled =>
        intro s' h' hh'
        exact h.settled s' h' (hother hh').2
      case held =>
        intro s' h' hh'
        obtain ⟨hne, hh'⟩ := hother hh'
        have hch : h'.channel ≠ hd.channel := fun heq => hne (h.exclusive s' s h' hd hh' hh heq)
        simp only [forwarder, channel?_closeHeld hh, if_neg hch, supervisor_closeHeld, if_neg hne]
        exact h.held s' h' hh'
      case free =>
        intro id ch' hc' hn
        rw [channel?_closeHeld hh] at hc'
        split at hc'
        · rename_i hid
          subst hid
          rw [hc] at hc'
          cases hc'
          rw [if_neg (h.settled s hd hh)]
          exact hst.release
        · rename_i hid
          refine h.free id ch' hc' fun s' h' hh' => ?_
          by_cases hs' : s' = s
          · rw [hs', hh] at hh'
            cases hh'
            exact Ne.symm hid
          · apply hn s' h'
            rw [held_closeHeld, if_neg hs']
            exact hh'

theorem openChannel (h : Custody c visits none) :
    Custody c.openChannel.1 visits c.openChannel.2.toOption := by
  rcases openChannel_cases c with ⟨e, rest, -, ho⟩ | ⟨new, hnew, ho⟩
  · rw [ho]
    exact h.same rfl (fun _ => rfl) (fun _ _ _ => rfl)
  · obtain ⟨hfresh, hch⟩ := channel?_openChannel h.numbered (show c.openChannel.2 = .ok new by rw [ho])
    simp only [ho] at hch
    rw [ho]
    change Custody _ visits (some new)
    have hne {s : SupervisorId} {hd : Held} (hh : (c.supervisor s).held = some hd) : hd.channel ≠ new := by
      obtain ⟨ch, hc, -⟩ := h.held s hd hh
      rintro rfl
      rw [hfresh] at hc
      cases hc
    have hnumbered := numbered_openChannel h.numbered
    rw [ho] at hnumbered
    refine ⟨hnumbered, ?unvisited, h.exclusive, ?settled, ?held, ?free⟩
    case unvisited =>
      intro id hid
      rw [hch] at hid
      split at hid
      · cases hid
      · exact h.unvisited id hid
    case settled =>
      intro s hd hh
      simpa using Ne.symm (hne hh)
    case held =>
      intro s hd hh
      rw [hch, if_neg (hne hh)]
      exact h.held s hd hh
    case free =>
      intro id ch hc hn
      rw [hch] at hc
      split at hc
      · -- The new channel is the loose one: nobody listens to it, and nobody can have closed it.
        rename_i hid
        cases hc
        rw [hid, h.unvisited new hfresh, if_pos rfl]
        exact ⟨rfl, rfl, rfl⟩
      · rename_i hid
        rw [if_neg (by simpa using Ne.symm hid)]
        exact h.free id ch hc hn

theorem closeLoose (h : Custody c visits (some id)) : Custody (c.close id) visits none where
  numbered := numbered_of_ids (ids_onChannel ..) h.numbered
  unvisited j hj := by
    rw [channel?_close] at hj
    split at hj
    · rename_i hji
      exact h.unvisited j (hji ▸ Option.map_eq_none_iff.1 hj)
    · exact h.unvisited j hj
  exclusive := h.exclusive
  settled _ _ _ := by simp
  held s hd hh := by
    have hne : hd.channel ≠ id := fun heq => h.settled s hd hh (heq ▸ rfl)
    rw [channel?_close, if_neg hne]
    exact h.held s hd hh
  free j ch hc hn := by
    rw [channel?_close] at hc
    split at hc
    · rename_i hj
      obtain ⟨ch', hc', rfl⟩ := Option.map_eq_some_iff.1 hc
      have hst := h.free j ch' (hj ▸ hc') hn
      rw [if_pos (by rw [hj])] at hst
      rw [if_neg (by simp)]
      exact hst.close
    · rename_i hj
      have hst := h.free j ch hc hn
      rw [if_neg (by simpa using Ne.symm hj)] at hst
      rw [if_neg (by simp)]
      exact hst

/-- The loose channel is attached, or closed when it cannot be. -/
theorem attach {r : Except TransportError Unit} (h : Custody c visits (some id))
    (hs : s.number < c.supervisors.length) (hn : (c.supervisor s).held = none)
    (ha : c.attach s id = (c', r)) : Custody c' visits none := by
  cases r with
  | error e => rw [attach_error ha]; exact h.closeLoose
  | ok u =>
      obtain ⟨ch, ha⟩ := attach_ok ha
      have hch := ha.channels
      have hsup := ha.supervisor
      have hother {s' : SupervisorId} (hne : s' ≠ s) : c'.supervisor s' = c.supervisor s' := by
        rw [hsup, if_neg (fun hm => hne hm.1)]
      have hself : (c'.supervisor s).held = some (handles ch) := by rw [hsup, if_pos ⟨rfl, hs⟩]
      have hopt : (c'.supervisor s).options = (c.supervisor s).options := by rw [hsup, if_pos ⟨rfl, hs⟩]
      have hid : (handles ch).channel = id := Connection.id_of_channel? ha.known
      have hloose {s' : SupervisorId} {h' : Held} (hh : (c.supervisor s').held = some h') : h'.channel ≠ id :=
        fun heq => h.settled s' h' hh (heq ▸ rfl)
      have hst : Stands { ch with confirming := (c.supervisor s).options.confirms || ch.confirming } [] []
          (visits id) := by
        have := h.free id ch ha.known fun s' h' hh => hloose hh
        rw [if_pos rfl] at this
        exact ⟨this.listeners, this.recoveryListeners, this.closes⟩
      refine ⟨numbered_of_ids ha.ids h.numbered, ?unvisited, ?exclusive, by simp, ?held, ?free⟩
      case unvisited =>
        intro j hj
        rw [hch] at hj
        split at hj
        · cases hj
        · exact h.unvisited j hj
      case exclusive =>
        -- The loose channel was held by nobody, so the new holder shares it with nobody.
        intro s₁ s₂ h₁ h₂ hh₁ hh₂ heq
        by_cases hs₁ : s₁ = s
        · by_cases hs₂ : s₂ = s
          · rw [hs₁, hs₂]
          · rw [hs₁, hself] at hh₁
            cases hh₁
            rw [hother hs₂] at hh₂
            exact absurd (heq.symm.trans hid) (hloose hh₂)
        · rw [hother hs₁] at hh₁
          by_cases hs₂ : s₂ = s
          · rw [hs₂, hself] at hh₂
            cases hh₂
            exact absurd (heq.trans hid) (hloose hh₁)
          · rw [hother hs₂] at hh₂
            exact h.exclusive s₁ s₂ h₁ h₂ hh₁ hh₂ heq
      case held =>
        intro s' h' hh
        by_cases hs' : s' = s
        · rw [hs', hself] at hh
          cases hh
          rw [hch, hid, if_pos rfl, hs']
          refine ⟨_, rfl, ?_⟩
          rw [forwarder, hopt]
          exact hst.wire _
        · rw [hother hs'] at hh
          rw [hch, if_neg (hloose hh), forwarder, hother hs']
          exact h.held s' h' hh
      case free =>
        intro j ch' hc hno
        rw [hch] at hc
        split at hc
        · rename_i hj
          exact absurd (hj ▸ hid) (hno s _ hself)
        · rename_i hj
          have hst := h.free j ch' hc fun s' h' hh => by
            by_cases hs' : s' = s
            · rw [hs', hn] at hh; cases hh
            · exact hno s' h' (by rw [hother hs']; exact hh)
          rw [if_neg (by simpa using Ne.symm hj)] at hst
          rw [if_neg (by simp)]
          exact hst

/-! ## Moves -/

variable {v : Invocation} {m : Move α}

theorem left (h : Custody c visits loose) (v : Invocation) : Custody (c.left v) visits loose :=
  h.same rfl (held_left c v) (fun s _ _ => (Keeps.left v).options s)

theorem record (h : Custody c visits loose) (r : Log.Record) : Custody (c.record r) visits loose :=
  h.same rfl (fun _ => rfl) (fun _ _ _ => rfl)

theorem failed (h : Custody c visits loose) (v : Invocation) (e : TransportError) :
    Custody (c.failed v e) visits loose := by
  unfold Client.failed
  simp only
  split
  · exact (h.closeHeld _).record _
  · exact h.record _

theorem opens {r : Except TransportError ChannelId} (h : Custody c visits none) (ho : Opens c m c' r)
    (hm : ∀ r, m ≠ .answer (.opened r)) : Custody c' visits r.toOption := by
  cases ho with
  | own => exact h.openChannel
  | foreign r => exact absurd rfl (hm r)

theorem fails {a : Attempt α} {e : TransportError} (h : Custody c visits none) (hf : Fails c v m a c' e)
    (hs : v.supervisor.number < c.supervisors.length)
    (hn : v.stage = .opening → (c.supervisor v.supervisor).held = none) (hm : ∀ r, m ≠ .answer (.opened r)) :
    Custody c' visits none := by
  cases hf with
  | unopened _ ho => exact h.opens ho hm
  | unattached hv ho ha =>
      exact (h.opens ho hm).attach (by rw [ho.keeps.length]; exact hs) (by rw [ho.supervisor]; exact hn hv) ha
  | acted => exact h

theorem leads {a : Option (Attempt α)} {q : Participant α} (h : Custody c visits none) (hl : Leads c v m a c' q)
    (hs : v.supervisor.number < c.supervisors.length)
    (hn : v.stage = .opening → (c.supervisor v.supervisor).held = none) (hm : ∀ r, m ≠ .answer (.opened r)) :
    Custody c' visits none := by
  cases hl with
  | looked | rested | unheld | reuses => exact h
  | givenUp | succeeds => exact h.left v
  | discards => exact (h.record _).closeHeld _
  | attaches hv ho ha _ =>
      exact (h.opens ho hm).attach (by rw [ho.keeps.length]; exact hs) (by rw [ho.supervisor]; exact hn hv) ha
  | orphans hv ho ha _ =>
      have := (h.opens ho hm).attach (by rw [ho.keeps.length]; exact hs) (by rw [ho.supervisor]; exact hn hv) ha
      exact (this.closeHeld _).left v
  | throws hf _ => exact ((h.fails hf hs hn hm).failed v _).left v
  | suppresses hf _ => exact (h.fails hf hs hn hm).failed v _

theorem begun {p : Participant α} (h : Custody c visits none) (hb : Begun c v c' p) : Custody c' visits none :=
  h.same (by cases hb <;> rfl) hb.held (fun s _ _ => hb.keeps.options s)

/-! ## Deeds -/

theorem supervise (h : Custody c visits loose) (o : Options) : Custody (c.addSupervisor o).1 visits loose := by
  refine h.same rfl (fun s => ?_) (fun s hd hh => ?_)
  · rw [supervisor_addSupervisor]
    split
    · rw [supervisor_of_le (by omega)]
    · rfl
  · rw [supervisor_addSupervisor]
    split
    · rw [supervisor_of_le (by omega)] at hh; cases hh
    · rfl

theorem dispose (h : Custody c visits loose) (s : SupervisorId) : Custody (c.dispose s) visits loose := by
  unfold Client.dispose
  split
  · exact h
  · have hsame := held_modify_disposed c s
    have hmarked : Custody (c.modify s ({ · with disposed := true })) visits loose :=
      h.same rfl (fun s' => (hsame s').1) (fun s' _ _ => (hsame s').2)
    exact (hmarked.closeHeld s).record _

theorem confirm {ch : ChannelId} (h : Custody c visits loose) (hk : c.confirmSelect ch = .ok c') :
    Custody c' visits loose := by
  obtain ⟨ch', hc', -, heq⟩ := confirmSelect_ok hk
  have hch := channel?_confirmSelect hk hc'
  refine h.visit ch (f := fun _ => { ch' with confirming := true }) (k := 0) (fun _ => by rw [heq]; rfl)
    (by rw [heq]; exact Connection.channels_put_ids ..) (fun j => by rw [hch, hc']; rfl) ?_ (by simp) (by simp)
  intro ch₁ hc₁ ls rs n hst
  rw [hc'] at hc₁
  cases hc₁
  exact ⟨hst.listeners, hst.recoveryListeners, hst.closes⟩

/-- A visitor neither closes the channel nor touches the listeners of supervisors. -/
theorem visitGently {f : Channel Listener → Channel Listener × Deliveries Listener} (h : Custody c visits loose)
    (hid : ∀ ch, (f ch).1.id = ch.id) (hf : ∀ ch, c.connection.channel? id = some ch →
      ∀ ls rs n, Stands ch ls rs n → Stands (f ch).1 ls rs n) : Custody (c.onChannel id f) visits loose :=
  h.visitChannel (k := 0) hid hf (by simp) (by simp)

/-- A deed leaves the custody of channels as it is, and only a close counts as one of a visitor. -/
theorem perform? {d : Deed} (h : Custody c visits none) (hd : c.perform? d = some c') (ho : d ≠ .openChannel) :
    Custody c' (fun id => visits id + if d.closes id then 1 else 0) none := by
  cases d with
  | supervise o => cases hd; exact h.supervise o
  | cancel t =>
      cases hd
      change Custody (c.cancel t) visits none
      unfold Client.cancel
      split
      · exact h
      · exact h.same rfl (fun _ => rfl) (fun _ _ _ => rfl)
  | failNext e => cases hd; exact h.same rfl (fun _ => rfl) (fun _ _ _ => rfl)
  | openChannel => exact absurd rfl ho
  | listen ch => cases hd; exact h.visitGently (fun _ => rfl) (fun _ _ _ _ _ hst => hst.listen)
  | listenRecovery ch => cases hd; exact h.visitGently (fun _ => rfl) (fun _ _ _ _ _ hst => hst.listenRecovery)
  | dispose s =>
      simp only [Client.perform?] at hd
      split at hd
      · cases hd; exact h.dispose s
      · cases hd
  | confirmSelect ch =>
      simp only [Client.perform?] at hd
      cases hk : c.confirmSelect ch with
      | error e => rw [hk] at hd; cases hd
      | ok c₁ => rw [hk] at hd; cases hd; exact h.confirm hk
  | signal ch g =>
      simp only [Client.perform?] at hd
      split at hd
      · cases hd; exact h.visitGently (fun _ => Channel.id_raise _ _) (fun _ _ _ _ _ hst => hst.raise g)
      · cases hd
  | close ch =>
      simp only [Client.perform?] at hd
      split at hd
      · rename_i hk
        cases hd
        refine h.visitChannel (k := 1) (fun _ => rfl) (fun _ _ _ _ _ hst => hst.close) (fun j => ?_) (fun hn => ?_)
        · by_cases hj : j = ch
          · simp [Deed.closes, hj]
          · simp [Deed.closes, hj, Ne.symm hj]
        · simp [knows, hn] at hk
      · cases hd
  | unlisten ch l =>
      simp only [Client.perform?] at hd
      split at hd
      · cases hd
      · rename_i hl
        cases hd
        refine h.visitGently (fun _ => rfl) (fun ch₁ hc₁ _ _ _ hst => ?_)
        rw [hc₁, Option.any_some] at hl
        exact hst.unlisten (eq_false_of_ne_true hl)
  | unlistenRecovery ch l =>
      simp only [Client.perform?] at hd
      split at hd
      · cases hd
      · rename_i hl
        cases hd
        refine h.visitGently (fun _ => rfl) (fun ch₁ hc₁ _ _ _ hst => ?_)
        rw [hc₁, Option.any_some] at hl
        exact hst.unlistenRecovery (eq_false_of_ne_true hl)

end Custody

end Client

namespace Scene

variable {α : Type} {w w' : Scene α} {e : Event α}

/-! ## Runs -/

def visits (w : Scene α) (id : ChannelId) : Nat :=
  w.trace.countP (fun | .deed d => d.closes id | _ => false)

theorem countP_closes {ms : List (Mark α)} (h : ∀ d, .deed d ∉ ms) (id : ChannelId) :
    ms.countP (fun | .deed d => d.closes id | _ => false) = 0 := by
  rw [List.countP_eq_zero]
  intro k hk
  cases k with
  | deed d => exact absurd hk (h d)
  | began | opening | called | attempted | ended => simp

theorem visits_put {c : Client} {i : InvocationId} {p : Participant α} {ms : List (Mark α)}
    (h : ∀ d, .deed d ∉ ms) :
    (w.put c i p ms).visits = w.visits := by
  funext id
  simp only [visits, put, List.countP_append, countP_closes h, Nat.add_zero]

theorem Reachable.custody (h : w.Reachable) (hd : w.direct = true) : w.client.Custody w.visits none := by
  induction h with
  | start =>
      refine ⟨?_, fun _ _ => rfl, ?_, ?_, ?_, ?_⟩
      · intro id hid; cases hid
      · intro s s' h h' hh; cases hh
      · intro s h hh; cases hh
      · intro s h hh; cases hh
      · intro id ch hc; cases hc
  | @step w w' e hr hs ih =>
      have hs := steps_of_step hs
      have hown : w.direct = true := hs.direct.symm.trans hd
      have ih := ih hown
      cases hs with
      | @deed d c hf hp =>
          have ho := ne_openChannel_of_direct hown hf
          have hv : Scene.visits { w with client := c, trace := w.trace ++ [.deed d] } =
              fun id => w.visits id + if d.closes id then 1 else 0 := by
            funext id
            simp only [visits, List.countP_append, List.countP_singleton]
          rw [hv]
          exact ih.perform? hp ho
      | begin hs hi hb =>
          rw [visits_put (by simp [deed_mem_reached])]
          exact ih.begun hb
      | @move i m p q c hf hi hm =>
          have hn := Client.phase_of_move? hm
          rw [visits_put (fun _ => deed_mem_marks)]
          exact ih.leads (Client.leads_of_move? hm) (hr.known hi).supervisor (hr.held_of_opening hi hn)
            (ne_opened_of_direct hown hf)

/-- No channel is held twice, left open by its holder or closed twice. Where the connection opens all channels,
a held channel has exactly the two listeners of its holder, and its holder has not closed it; every other channel
has no listener of a supervisor, and was closed by supervisors once. -/
theorem Reachable.no_leak (h : w.Reachable) (hd : w.direct = true) :
    (∀ s s' k k', (w.client.supervisor s).held = some k → (w.client.supervisor s').held = some k' →
      k.channel = k'.channel → s = s') ∧
    (∀ s k, (w.client.supervisor s).held = some k → ∃ ch, w.client.connection.channel? k.channel = some ch ∧
      Client.forwarders ch.listeners = [(k.listener, w.client.forwarder s k.channel)] ∧
      Client.forwarders ch.recoveryListeners = [(k.recoveryListener, w.client.forwarder s k.channel)] ∧
      ch.closeCalls = w.visits k.channel) ∧
    (∀ id ch, w.client.connection.channel? id = some ch →
      (∀ s k, (w.client.supervisor s).held = some k → k.channel ≠ id) →
      Client.forwarders ch.listeners = [] ∧ Client.forwarders ch.recoveryListeners = [] ∧
      ch.closeCalls = w.visits id + 1) := by
  have hc := h.custody hd
  refine ⟨hc.exclusive, fun s k hk => ?_, fun id ch hch hn => ?_⟩
  · obtain ⟨ch, hch, hst⟩ := hc.held s k hk
    exact ⟨ch, hch, hst.listeners, hst.recoveryListeners, hst.closes⟩
  · have hst := hc.free id ch hch hn
    exact ⟨hst.listeners, hst.recoveryListeners, hst.closes⟩

/-- An action closes its channel and fails; the next attempt finds it closed and opens another one. -/
def replaced : List (Event Nat) :=
  [.deed (.supervise {}), .begin ⟨0⟩ ⟨0⟩ none, .move ⟨0⟩ .enter, .move ⟨0⟩ .look, .move ⟨0⟩ .opens,
    .move ⟨0⟩ .look, .deed (.close ⟨1⟩), .move ⟨0⟩ (.answer (.acted (.error (.unreachable "away")))),
    .move ⟨0⟩ .look, .move ⟨0⟩ (.answer .elapsed), .move ⟨0⟩ .look, .move ⟨0⟩ .opens]

theorem no_leak_replaced : ∃ w k ch₁ ch₂, (start true true).run replaced = some w ∧
    (w.client.supervisor ⟨0⟩).held = some k ∧
    w.client.connection.channel? ⟨1⟩ = some ch₁ ∧ w.client.connection.channel? k.channel = some ch₂ ∧
    Client.forwarders ch₁.listeners = [] ∧ ch₁.closeCalls = 2 ∧
    Client.forwarders ch₂.listeners = [(k.listener, w.client.forwarder ⟨0⟩ k.channel)] ∧ ch₂.closeCalls = 0 := by
  obtain ⟨w, hw⟩ := Option.isSome_iff_exists.1 (rfl : ((start true true).run replaced).isSome = true)
  have hr := (Reachable.start true true).run hw
  have hd : w.direct = true := map_of_run (·.direct) hw rfl
  have hk : (w.client.supervisor ⟨0⟩).held = some ⟨⟨2⟩, ⟨2⟩, ⟨1⟩⟩ :=
    map_of_run (·.client.supervisor ⟨0⟩ |>.held) hw rfl
  have hlen : w.client.supervisors.length = 1 := map_of_run (·.client.supervisors.length) hw rfl
  have hv₁ : w.visits ⟨1⟩ = 1 := map_of_run (·.visits ⟨1⟩) hw rfl
  have hv₂ : w.visits ⟨2⟩ = 0 := map_of_run (·.visits ⟨2⟩) hw rfl
  obtain ⟨ch₁, hc₁⟩ := Option.isSome_iff_exists.1
    (map_of_run (fun w => (w.client.connection.channel? ⟨1⟩).isSome) hw rfl : _ = true)
  obtain ⟨-, hheld, hfree⟩ := hr.no_leak hd
  obtain ⟨ch₂, hc₂, hl₂, -, hn₂⟩ := hheld ⟨0⟩ _ hk
  obtain ⟨hl₁, -, hn₁⟩ := hfree ⟨1⟩ ch₁ hc₁ fun s k hs => by
    by_cases h0 : s = ⟨0⟩
    · rw [h0, hk] at hs
      cases hs
      simp
    · have hle : w.client.supervisors.length ≤ s.number := by
        rw [hlen]
        exact Nat.pos_of_ne_zero fun hz => h0 (by cases s; cases hz; rfl)
      rw [Client.supervisor_of_le hle] at hs
      cases hs
  exact ⟨w, _, ch₁, ch₂, hw, hk, hc₁, hc₂, hl₁, hn₁.trans (by rw [hv₁]), hl₂, hn₂.trans hv₂⟩

end Scene

end BrokerClient
