import BrokerClient.Proofs.Scene.Hearing
import BrokerClient.Proofs.Strategy.Recoding
import BrokerClient.Proofs.Strategy.Versioned

/-!
# Returned messages

Each supervisor that holds a channel makes a returned message known once, and every strategy reads of that event what
it reads of the packet that was published (`Scene.Reachable.returned_as_published`).
-/
namespace BrokerClient

namespace Client

variable {c : Client} {r : Ledger} {s : SupervisorId} {id : ChannelId}

/-- The supervisors that hold a channel. -/
def holders (c : Client) (id : ChannelId) : List SupervisorId :=
  ((List.range c.supervisors.length).map SupervisorId.mk).filter fun s => (c.supervisor s).channel? = some id

theorem mem_holders : s ∈ c.holders id ↔ (c.supervisor s).channel? = some id := by
  simp only [holders, List.mem_filter, List.mem_map, List.mem_range, decide_eq_true_eq, and_iff_right_iff_imp]
  intro hs
  obtain ⟨k, hk, -⟩ := Option.map_eq_some_iff.1 hs
  exact ⟨s.number, lt_of_held hk, rfl⟩

theorem nodup_holders (c : Client) (id : ChannelId) : (c.holders id).Nodup := by
  apply List.Nodup.filter
  apply List.nodup_range.map
  intro a b hab
  exact congrArg SupervisorId.number hab

theorem Matches.perm_holders (hm : c.Matches r) (id : ChannelId) :
    ((r.standing id).holders.map Prod.fst).Perm (c.holders id) := by
  have hnodup : ((r.standing id).holders.map Prod.fst).Nodup := by
    apply (hm.once id).map_on
    rintro ⟨s, b⟩ hx ⟨s', b'⟩ hy rfl
    obtain ⟨-, rfl⟩ := (hm.holders id s b).1 hx
    obtain ⟨-, rfl⟩ := (hm.holders id s b').1 hy
    rfl
  apply (List.perm_ext_iff_of_nodup hnodup (nodup_holders c id)).2
  intro s
  rw [mem_holders]
  constructor
  · intro hs
    obtain ⟨⟨s, b⟩, hx, rfl⟩ := List.mem_map.1 hs
    exact ((hm.holders id s b).1 hx).1
  · intro hs
    exact List.mem_map.2 ⟨(s, _), (hm.holders id s _).2 ⟨hs, rfl⟩, rfl⟩

/-- All holders make known the same. -/
theorem Matches.told_returned (hm : c.Matches r) (id : ChannelId) (x : Returned) :
    (r.standing id).told id (.returned x) = (c.holders id).map fun _ =>
      ⟨id, .returned x.body (.ofBasic x.properties) x.exchange x.routingKey x.replyText⟩ := by
  have hlen := (hm.perm_holders id).length_eq
  rw [List.length_map] at hlen
  simp only [Standing.told, Signal.event?, List.filterMap_eq_map', List.map_const', hlen]

end Client

namespace Scene

variable {α : Type} {w : Scene α} {s : SupervisorId} {id : ChannelId}

theorem Reachable.exists_matches (h : w.Reachable) : ∃ r, w.client.Matches r := by
  induction h with
  | start recoverable direct => exact ⟨_, .start recoverable⟩
  | step hr hs ih =>
      obtain ⟨r, hm⟩ := ih
      exact ⟨_, follows_of_step hr hs r hm⟩

theorem Reachable.holders_eq_singleton (h : w.Reachable) (hd : w.direct = true)
    (hs : (w.client.supervisor s).channel? = some id) : w.client.holders id = [s] := by
  obtain ⟨r, hm⟩ := h.exists_matches
  have hle := h.length_holders hd hm id
  rw [← List.length_map Prod.fst, (hm.perm_holders id).length_eq] at hle
  have hmem := Client.mem_holders.2 hs
  match hl : w.client.holders id with
  | [] => rw [hl] at hmem; cases hmem
  | [x] => rw [hl] at hmem; rw [List.mem_singleton.1 hmem]
  | x :: y :: rest => rw [hl] at hle; simp at hle

/-- A packet, whichever strategy made it, that the broker returns on a channel that a supervisor holds, with texts in
its headers as octets or not, is made known by each supervisor that holds the channel, once. That is no other one if the
connection opens all channels. Any strategy reads of the event the type and the body, or fails with the error, that it
reads of the packet. -/
theorem Reachable.returned_as_published (h : w.Reachable) (hs : (w.client.supervisor s).channel? = some id)
    (p : Packet) {x : Returned} (hx : (p.properties.copyTo {}).Recoded x.properties) (hb : x.body = p.payload) :
    ∃ w', w.step (.deed (.signal id (.returned x))) = some w' ∧
      w'.client.events = w.client.events ++ (w.client.holders id).map (fun _ =>
        ⟨id, .returned p.payload (.ofBasic x.properties) x.exchange x.routingKey x.replyText⟩) ∧
      s ∈ w.client.holders id ∧ (w.direct = true → w.client.holders id = [s]) ∧
      ∀ consumer : Strategy, consumer.deserialize ⟨.ofBasic x.properties, p.payload⟩ =
        (consumer.deserialize p).map ({ · with properties := .ofBasic x.properties }) := by
  obtain ⟨r, hm⟩ := h.exists_matches
  obtain ⟨k, hk, rfl⟩ := Option.map_eq_some_iff.1 hs
  obtain ⟨ch, hch⟩ := hm.known hk
  have hknows : w.client.knows k.channel = true := by rw [Client.knows, hch]; rfl
  have hstep : w.step (.deed (.signal k.channel (.returned x))) = some { w with
      client := w.client.raise k.channel (.returned x)
      trace := w.trace ++ [.deed (.signal k.channel (.returned x))] } := by
    simp [Scene.step, isForeign, Client.perform?, hknows]
  have hevents := (hm.raise hknows (.returned x)).events
  simp only [Ledger.enter, Standing.heard, hm.told_returned, ← hm.events, hb] at hevents
  refine ⟨_, hstep, hevents, Client.mem_holders.2 hs, fun hd => h.holders_eq_singleton hd hs, fun consumer => ?_⟩
  exact Strategy.deserialize_of_tellsSame (.ofBasic hx) consumer p.payload

/-- One supervisor holds the first channel. -/
def opened : List (Event Nat) :=
  [.deed (.supervise {}), .begin ⟨0⟩ ⟨0⟩ none, .move ⟨0⟩ .enter, .move ⟨0⟩ .look, .move ⟨0⟩ .opens]

/-- The return of a packet with octets in its headers. -/
def unroutable (p : Packet) : Returned :=
  ⟨"news", "nowhere", 312, "NO_ROUTE", p.properties.headersToOctets.copyTo {}, p.payload⟩

open VersionedStrategy in
theorem returned_as_published_newest : ∃ w w' packet, (start true true).run opened = some w ∧
    newsroom.serialize "id" newest = .ok packet ∧
    w.step (.deed (.signal ⟨1⟩ (.returned (unroutable packet)))) = some w' ∧
    w'.client.events = [⟨⟨1⟩, .returned packet.payload (.ofBasic (unroutable packet).properties) "news" "nowhere"
      "NO_ROUTE"⟩] ∧
    (Strategy.versioned subscriber).deserialize ⟨.ofBasic (unroutable packet).properties, packet.payload⟩ =
      .ok ⟨⟨"news::V2"⟩, newest.body, .ofBasic (unroutable packet).properties⟩ := by
  obtain ⟨w, hw⟩ := Option.isSome_iff_exists.1 (rfl : ((start true true).run opened).isSome = true)
  obtain ⟨packet, hp⟩ : ∃ packet, newsroom.serialize "id" newest = .ok packet := ⟨_, rfl⟩
  have hs : (w.client.supervisor ⟨0⟩).channel? = some ⟨1⟩ := by cases hw; rfl
  have hd : w.direct = true := by cases hw; rfl
  have hnone : w.client.events = [] := by cases hw; rfl
  have hread : (Strategy.versioned subscriber).deserialize packet =
      .ok ⟨⟨"news::V2"⟩, newest.body, packet.properties⟩ := by cases hp; rfl
  obtain ⟨w', hstep, hevents, -, hone, hsame⟩ := ((Reachable.start true true).run hw).returned_as_published hs packet
    (x := unroutable packet) packet.properties.recoded_copyTo_headersToOctets rfl
  refine ⟨w, w', packet, hw, hp, hstep, ?_, ?_⟩
  · rw [hevents, hone hd, hnone]
    rfl
  · rw [hsame, hread]
    rfl

end Scene

end BrokerClient
