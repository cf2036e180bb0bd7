import BrokerClient.Proofs.Body.MsgPack
import BrokerClient.Proofs.Strategy.Versioned

/-!
# Codecs that carry bodies

MessagePack carries every body whose lengths are below 2^32, compact JSON every body without floats, unless the body
nests deeper than a reader allows (`carried_by_codecs`).
-/
namespace BrokerClient.BodyCodec

variable {codec : BodyCodec} {t : MessageType} {b : Body} {payload : Text.Octets}

/-- A codec that makes nothing of no octets carries what it reads back. -/
theorem carries_of_decode (he : codec.encode t b = .ok payload) (hd : ∀ t', codec.decode t' payload = .ok b)
    (hempty : ∀ b', codec.decode t [] ≠ .ok b') : codec.Carries codec t b := by
  refine ⟨payload, he, ?_, hd⟩
  rintro rfl
  exact hempty b (hd t)

theorem carries_msgPack (ho : b.Ordered) (hs : b.Throughout Body.IsShort) (hd : b.depth ≤ 1023) :
    msgPack.Carries msgPack t b := by
  apply carries_of_decode rfl
  · intro t'
    have hread : Body.MsgPack.ofOctets? (Body.MsgPack.octets b) = some b :=
      (Body.MsgPack.ofOctets?_octets ho hs).trans (if_pos hd)
    simp only [msgPack, hread, orReason]
  · intro b' h
    cases h

theorem carries_json (ho : b.Ordered) (hf : b.Throughout Body.NoFloat) (hd : b.depth ≤ 127) :
    json.Carries json t b := by
  apply carries_of_decode rfl
  · intro t'
    have hread := Body.ofText?_text ho hf hd
    simp only [json, Text.ofUtf8?_utf8, Option.bind_some, hread, orReason]
  · intro b' h
    cases h

/-- A body comes back from MessagePack as it was, floats bit by bit, if its lengths are below 2^32 and containers nest
at most 1023 deep; and from JSON if it has no floats and they nest at most 127 deep. So it is read from both as the
same body. -/
theorem carried_by_codecs (t : MessageType) (ho : b.Ordered) :
    (b.Throughout Body.IsShort → b.depth ≤ 1023 → msgPack.Carries msgPack t b) ∧
    (b.Throughout Body.NoFloat → b.depth ≤ 127 → json.Carries json t b) ∧
    (b.Throughout Body.IsShort → b.Throughout Body.NoFloat → b.depth ≤ 127 → ∃ packed text,
      msgPack.encode t b = .ok packed ∧ json.encode t b = .ok text ∧
        ∀ t', msgPack.decode t' packed = json.decode t' text) := by
  refine ⟨carries_msgPack ho, carries_json ho, fun hs hf hd => ?_⟩
  obtain ⟨packed, hpacked, -, hunpacked⟩ := carries_msgPack (t := t) ho hs (Nat.le_trans hd (by decide))
  obtain ⟨text, htext, -, hread⟩ := carries_json (t := t) ho hf hd
  exact ⟨packed, text, hpacked, htext, fun t' => (hunpacked t').trans (hread t').symm⟩

/-- A shipment with the greatest and the least integer and a text with escapes. -/
def shipment : Body :=
  .object [
    ("extent", .array [.number (.natural 0xFFFFFFFFFFFFFFFF), .number (.negative (-0x8000000000000000) (by decide))]),
    ("note", .string "caf\u00e9 \"\n\u0001\""), ("stops", .array [.object [], .null, .bool true])]

theorem carried_by_codecs_shipment : msgPack.Carries msgPack ⟨"orders::Shipment"⟩ shipment ∧
    json.Carries json ⟨"orders::Shipment"⟩ shipment ∧ ∃ packed text,
      msgPack.encode ⟨"orders::Shipment"⟩ shipment = .ok packed ∧ json.encode ⟨"orders::Shipment"⟩ shipment = .ok text ∧
        ∀ t', msgPack.decode t' packed = json.decode t' text := by
  have ho : shipment.Ordered := by
    simp [shipment, Body.Ordered, Body.MembersOrdered, Body.ItemsOrdered]
    decide
  have hs : shipment.Throughout Body.IsShort := by
    simp [shipment, Body.Throughout, Body.MembersThroughout, Body.ItemsThroughout, Body.IsShort]
    decide
  have hf : shipment.Throughout Body.NoFloat := by
    simp [shipment, Body.Throughout, Body.MembersThroughout, Body.ItemsThroughout, Body.NoFloat, Number.IsInteger]
  have hd : shipment.depth ≤ 127 := by decide
  obtain ⟨hmsgPack, hjson, hboth⟩ := carried_by_codecs ⟨"orders::Shipment"⟩ ho
  exact ⟨hmsgPack hs (by decide), hjson hf hd, hboth hs hf hd⟩

end BrokerClient.BodyCodec
