import BrokerClient.Proofs.Scene.Custody

/-!
# The ledger of channels

What is done to the channels of a client, and what those who hold them make known of it, told without listeners:
holders hear the signals that are raised while they hold the channel, and a shutdown when it is closed while it is open
(`Ledger`). A channel `Shows` a standing when the listeners of supervisors on it are those of its holders; then what its
listeners make known of an act is what the ledger says.
-/
namespace BrokerClient

/-! ## Acts -/

/-- What is done to a channel. -/
inductive Act where
  | held (s : SupervisorId) (confirms : Bool)
  /-- A holder closes the channel and is done with it. -/
  | released (s : SupervisorId)
  /-- A supervisor closes a channel that it cannot hold. -/
  | refused (s : SupervisorId)
  /-- A visitor closes the channel, and whoever holds it goes on holding it. -/
  | closed
  | raised (g : Signal)

/-- The acts on the channels of a client, oldest first. -/
abbrev History := List (ChannelId × Act)

/-- What a holder makes known of a signal. Confirmations are only of interest if they were asked for. -/
def Signal.event? (confirms : Bool) (id : ChannelId) : Signal → Option ChannelEvent
  | .ack tag multiple => if confirms then some ⟨id, .confirmation tag multiple false⟩ else none
  | .nack tag multiple => if confirms then some ⟨id, .confirmation tag multiple true⟩ else none
  | .returned r => some ⟨id, .returned r.body (.ofBasic r.properties) r.exchange r.routingKey r.replyText⟩
  | .shutdown reason => some ⟨id, .shutdown (some reason)⟩
  | .recovery => some ⟨id, .recovered⟩

/-- A channel as its history tells it, with those who hold it and whether they asked for confirmations. -/
structure Standing where
  isOpen : Bool := true
  holders : List (SupervisorId × Bool) := []
  closes : Nat := 0

namespace Standing

def after (k : Standing) : Act → Standing
  | .held s confirms => { k with holders := k.holders ++ [(s, confirms)] }
  | .released s =>
    { isOpen := false, holders := k.holders.filter (fun x => x.1 ≠ s), closes := k.closes + 1 }
  | .refused _ | .closed => { k with isOpen := false, closes := k.closes + 1 }
  | .raised (.shutdown _) => { k with isOpen := false }
  | .raised .recovery => { k with isOpen := true }
  | .raised _ => k

def told (k : Standing) (id : ChannelId) (g : Signal) : List ChannelEvent :=
  k.holders.filterMap (fun x => g.event? x.2 id)

/-- What the holders make known of an act. To close an open channel is to shut it down. -/
def heard (k : Standing) (id : ChannelId) : Act → List ChannelEvent
  | .held _ _ => []
  | .released _ | .refused _ | .closed => if k.isOpen then k.told id (.shutdown .goodbye) else []
  | .raised g => k.told id g

end Standing

structure Ledger where
  standing : ChannelId → Standing := fun _ => {}
  events : List ChannelEvent := []

namespace Ledger

def enter (r : Ledger) (x : ChannelId × Act) : Ledger where
  standing := fun j => if j = x.1 then (r.standing x.1).after x.2 else r.standing j
  events := r.events ++ (r.standing x.1).heard x.1 x.2

def enterAll (r : Ledger) (h : History) : Ledger :=
  h.foldl enter r

/-- The ledger of a client that began without channels. -/
def ofHistory (h : History) : Ledger :=
  ({} : Ledger).enterAll h

theorem enterAll_append (r : Ledger) (h h' : History) : r.enterAll (h ++ h') = (r.enterAll h).enterAll h' :=
  List.foldl_append

end Ledger

namespace Client

variable {c c' : Client} {s : SupervisorId} {id : ChannelId} {k k' : Standing}
  {ch ch' : Channel Listener}

/-! ## The listeners of holders -/

def owner? : Listener → Option SupervisorId
  | .forwarder f => some f.owner
  | .visitor => none

def wires (id : ChannelId) (holders : List (SupervisorId × Bool)) : List Listener :=
  holders.map (fun x => .forwarder ⟨x.1, id, x.2⟩)

/-- A channel is as it stands, and the supervisors that listen to it are its holders. -/
structure Shows (id : ChannelId) (ch : Channel Listener) (k : Standing) : Prop where
  isOpen : ch.isOpen = k.isOpen
  closes : ch.closeCalls = k.closes
  listeners : (forwarders ch.listeners).map Prod.snd = wires id k.holders
  recoveryListeners : (forwarders ch.recoveryListeners).map Prod.snd = wires id k.holders
  numbered : ∀ x ∈ forwarders ch.listeners ++ forwarders ch.recoveryListeners, x.1.number < ch.nextListener

/-- Of the listeners of supervisors, those of `s` are the ones with the handle. -/
def Owned (s : SupervisorId) (ls : List (ListenerId × Listener)) (l : ListenerId) : Prop :=
  ∀ x ∈ forwarders ls, x.1 = l ↔ owner? x.2 = some s

/-- What is made known when listeners are told something. -/
def made (ds : Deliveries Listener) : List ChannelEvent :=
  ds.filterMap (fun (l, n) => l.event? n)

theorem made_tell (ls : List (ListenerId × Listener)) (n : Notice) :
    made (ls.map (fun l => (l.2, n))) = ((forwarders ls).map Prod.snd).filterMap (·.event? n) := by
  induction ls with
  | nil => rfl
  | cons l ls ih =>
      obtain ⟨i, l⟩ := l
      cases l with
      | visitor => exact ih
      | forwarder f =>
          simp only [made, forwarders, List.map_cons, List.filterMap_cons, List.filter_cons] at ih ⊢
          rw [ih]
          rfl

theorem events_onChannel (c : Client) (id : ChannelId)
    (f : Channel Listener → Channel Listener × Deliveries Listener) :
    (c.onChannel id f).events = c.events ++ made (((c.connection.channel? id).map (fun ch => (f ch).2)).getD []) := by
  simp only [onChannel, Connection.deliver, Connection.modify, made]
  cases c.connection.channel? id <;> rfl

theorem events_closeHeld {hd : Held} (hh : (c.supervisor s).held = some hd) :
    (c.closeHeld s).events = (c.close hd.channel).events := by
  simp only [closeHeld, hh, record, close, events_onChannel, connection_modify]
  cases ((c.modify s ({ · with held := none })).onChannel hd.channel Channel.close).connection.channel? hd.channel <;>
    exact List.append_nil _

theorem events_attach (ha : c.attach s id = (c', .ok ())) : c'.events = c.events := by
  rcases attach_cases c s id with ⟨e, he⟩ | ⟨ch, c₁, -, -, -, hk, he⟩
  · rw [he] at ha
    cases ha
  · rw [he] at ha
    cases ha
    split at hk
    · obtain ⟨ch', -, -, rfl⟩ := confirmSelect_ok hk
      rfl
    · cases hk
      rfl

namespace Shows

theorem made_tell (hs : Shows id ch k) (n : Notice) :
    made (ch.tell n) = k.holders.filterMap (fun x => (Forwarder.mk x.1 id x.2).event? n) := by
  rw [Channel.tell, Client.made_tell, hs.listeners, wires, List.filterMap_map]
  rfl

theorem made_raise (hs : Shows id ch k) (g : Signal) : made (ch.raise g).2 = k.heard id (.raised g) := by
  cases g with
  | ack | nack | returned | shutdown => exact hs.made_tell _
  | recovery =>
      rw [Channel.raise, Channel.tellRecovery, Client.made_tell, hs.recoveryListeners, wires, List.filterMap_map]
      rfl

theorem made_close (hs : Shows id ch k) : made ch.close.2 = k.heard id .closed := by
  rw [Channel.close, Standing.heard, ← hs.isOpen]
  cases ch.isOpen with
  | true => exact hs.made_tell _
  | false => rfl

/-- The listeners of supervisors stay when a visitor does something to the channel. -/
theorem visit {n : Nat} (hs : Shows id ch k)
    (h : Stands ch' (forwarders ch.listeners) (forwarders ch.recoveryListeners) n) (hn : n = k'.closes)
    (ho : ch'.isOpen = k'.isOpen) (hk : k'.holders = k.holders) (hl : ch.nextListener ≤ ch'.nextListener) :
    Shows id ch' k' where
  isOpen := ho
  closes := h.closes.trans hn
  listeners := by rw [h.listeners, hk]; exact hs.listeners
  recoveryListeners := by rw [h.recoveryListeners, hk]; exact hs.recoveryListeners
  numbered x hx := by
    rw [h.listeners, h.recoveryListeners] at hx
    exact Nat.lt_of_lt_of_le (hs.numbered x hx) hl

theorem wire {b : Bool} (hs : Shows id ch k) : Shows id (Client.wire ⟨s, id, b⟩ ch) (k.after (.held s b)) where
  isOpen := hs.isOpen
  closes := hs.closes
  listeners := by
    simp only [Client.wire, forwarders_append, List.map_append, hs.listeners, Standing.after, wires]
    rfl
  recoveryListeners := by
    simp only [Client.wire, forwarders_append, List.map_append, hs.recoveryListeners, Standing.after, wires]
    rfl
  numbered x hx := by
    simp only [Client.wire, forwarders_append, List.mem_append] at hx
    have hold := hs.numbered x
    simp only [List.mem_append] at hold
    change x.1.number < ch.nextListener + 2
    rcases hx with (hx | hx) | (hx | hx)
    · exact Nat.lt_add_right 2 (hold (.inl hx))
    · obtain rfl := List.mem_singleton.1 (List.mem_filter.1 hx).1
      exact Nat.lt_succ_self _
    · exact Nat.lt_add_right 2 (hold (.inr hx))
    · obtain rfl := List.mem_singleton.1 (List.mem_filter.1 hx).1
      exact Nat.lt_add_of_pos_right (by decide)

end Shows

theorem Owned.sub {ls ls' : List (ListenerId × Listener)} {l : ListenerId} (h : Owned s ls l)
    (hs : ∀ x ∈ forwarders ls', x ∈ forwarders ls) : Owned s ls' l :=
  fun x hx => h x (hs x hx)

/-- Taking down the listener of a supervisor leaves those of the others. -/
theorem Owned.removed {ls : List (ListenerId × Listener)} {l : ListenerId} {holders : List (SupervisorId × Bool)}
    (h : Owned s ls l) (hl : (forwarders ls).map Prod.snd = wires id holders) :
    (forwarders (ls.filter (fun x => x.1 ≠ l))).map Prod.snd = wires id (holders.filter (fun x => x.1 ≠ s)) := by
  have hown : (forwarders ls).filter (fun x => x.1 ≠ l) =
      (forwarders ls).filter ((fun y => decide (owner? y ≠ some s)) ∘ Prod.snd) := by
    apply List.filter_congr
    intro x hx
    exact decide_eq_decide.2 (not_congr (h x hx))
  rw [forwarders_filter, hown, ← List.filter_map, hl, wires, wires, List.filter_map]
  congr 1
  apply List.filter_congr
  intro x _
  simp [owner?]

theorem exists_owner {ls : List (ListenerId × Listener)} {holders : List (SupervisorId × Bool)}
    (hl : (forwarders ls).map Prod.snd = wires id holders) :
    (∃ x ∈ forwarders ls, owner? x.2 = some s) ↔ ∃ b, (s, b) ∈ holders := by
  have hmap : (∃ x ∈ forwarders ls, owner? x.2 = some s) ↔ ∃ y ∈ (forwarders ls).map Prod.snd, owner? y = some s := by
    simp only [List.mem_map, exists_exists_and_eq_and]
  rw [hmap, hl]
  constructor
  · rintro ⟨y, hy, ho⟩
    obtain ⟨⟨s', b⟩, hx, rfl⟩ := List.mem_map.1 hy
    cases ho
    exact ⟨b, hx⟩
  · rintro ⟨b, hx⟩
    exact ⟨_, List.mem_map_of_mem hx, rfl⟩

theorem Owned.lt {ls : List (ListenerId × Listener)} {l : ListenerId} {holders : List (SupervisorId × Bool)} {b : Bool}
    {n : Nat} (h : Owned s ls l) (hl : (forwarders ls).map Prod.snd = wires id holders) (hb : (s, b) ∈ holders)
    (hn : ∀ x ∈ forwarders ls, x.1.number < n) : l.number < n := by
  obtain ⟨x, hx, ho⟩ := (exists_owner hl).2 ⟨b, hb⟩
  rw [← (h x hx).2 ho]
  exact hn x hx

/-- A handle that is not given yet can be that of a supervisor that does not listen yet. -/
theorem Owned.fresh {ls : List (ListenerId × Listener)} {l : ListenerId} {holders : List (SupervisorId × Bool)}
    (hl : (forwarders ls).map Prod.snd = wires id holders) (hs : ∀ b, (s, b) ∉ holders)
    (hn : ∀ x ∈ forwarders ls, x.1.number < l.number) : Owned s ls l := by
  intro x hx
  refine iff_of_false (fun hxl => Nat.lt_irrefl _ (hxl ▸ hn x hx)) (fun ho => ?_)
  obtain ⟨b, hb⟩ := (exists_owner hl).1 ⟨x, hx, ho⟩
  exact hs b hb

theorem Owned.append {ls : List (ListenerId × Listener)} {l : ListenerId} {x : ListenerId × Listener}
    (h : Owned s ls l) (hx : x.1 = l ↔ owner? x.2 = some s) : Owned s (ls ++ [x]) l := by
  intro y hy
  rcases List.mem_append.1 (forwarders_append .. ▸ hy) with hy | hy
  · exact h y hy
  · obtain rfl := List.mem_singleton.1 (List.mem_filter.1 hy).1
    exact hx

theorem Shows.release {hd : Held} (hs : Shows id ch k) (hl : Owned s ch.listeners hd.listener)
    (hr : Owned s ch.recoveryListeners hd.recoveryListener) : Shows id (release hd ch) (k.after (.released s)) where
  isOpen := rfl
  closes := congrArg (· + 1) hs.closes
  listeners := hl.removed hs.listeners
  recoveryListeners := hr.removed hs.recoveryListeners
  numbered x hx := by
    refine hs.numbered x ?_
    rcases List.mem_append.1 hx with hx | hx
    · exact List.mem_append_left _ (List.mem_filter.1 (forwarders_filter .. ▸ hx)).1
    · exact List.mem_append_right _ (List.mem_filter.1 (forwarders_filter .. ▸ hx)).1

end Client

end BrokerClient
