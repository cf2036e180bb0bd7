import BrokerClient.Proofs.Message.TypeNames
import BrokerClient.Proofs.Strategy.Payload
import BrokerClient.Strategy.Default

/-!
# Messages under one name, there and back

A message of a known type is read back as it was published, and is published again as the same packet
(`DefaultStrategy.read_back_and_republished`).
-/
namespace BrokerClient

/-- What the codec makes of a body is not empty, and the codec reads the body back from it. -/
def BodyCodec.Restores (codec : BodyCodec) (t : MessageType) (b : Body) : Prop :=
  ∃ payload, codec.encode t b = .ok payload ∧ payload ≠ [] ∧ codec.decode t payload = .ok b

namespace DefaultStrategy

open Strategy

variable {s : DefaultStrategy} {m : Message} {name : String} {payload : Text.Octets} {p : Packet} {t : MessageType}
  {b : Option Body}

theorem serialize_of_name (hn : s.names.nameOf m.type = .ok name) (hb : encodeBody s.codec m = .ok payload)
    (fresh : String) : s.serialize fresh m =
      .ok ⟨ensureCorrelationId fresh { m.properties with typeName := some name }, payload⟩ := by
  simp only [serialize, hn, hb]
  rfl

theorem deserialize_eq_map (hn : p.properties.typeName = some name) (ht : s.names.typeOf name = .ok t) :
    s.deserialize p = (decodeBody s.codec t p.payload).map (⟨t, ·, p.properties⟩) := by
  simp only [deserialize, hn, ht]
  cases decodeBody s.codec t p.payload <;> rfl

theorem deserialize_of_name (hn : p.properties.typeName = some name) (ht : s.names.typeOf name = .ok t)
    (hb : decodeBody s.codec t p.payload = .ok b) : s.deserialize p = .ok ⟨t, b, p.properties⟩ := by
  rw [deserialize_eq_map hn ht, hb]
  rfl

theorem serialize_eq_ok_iff {fresh : String} : s.serialize fresh m = .ok p ↔ ∃ name payload,
    s.names.nameOf m.type = .ok name ∧ encodeBody s.codec m = .ok payload ∧
      p = ⟨ensureCorrelationId fresh { m.properties with typeName := some name }, payload⟩ := by
  unfold serialize
  cases s.names.nameOf m.type with
  | error e => simp [bind, Except.bind]
  | ok name =>
      cases encodeBody s.codec m with
      | error e => simp [bind, Except.bind]
      | ok payload => simp [bind, Except.bind, pure, Except.pure, eq_comm]

theorem encodeBody_of_serialize {fresh : String} (h : s.serialize fresh m = .ok p) :
    encodeBody s.codec m = .ok p.payload := by
  obtain ⟨name, payload, -, hbody, rfl⟩ := serialize_eq_ok_iff.1 h
  exact hbody

/-- A message of a known type whose name is not too long is published under that name, with its own identifier or, if it
has none, with the fresh one. It is read back with its body and the properties of its packet, and the message that was
read is published as the same packet. -/
theorem read_back_and_republished {known : List MessageType} {codec : BodyCodec} {fresh : String}
    (hknown : m.type ∈ known) (hname : m.type.name.length ≤ 255)
    (hbody : ∀ b, m.body = some b → codec.Restores m.type b) (hfresh : fresh ≠ "") :
    ∃ packet, (DefaultStrategy.mk (.registry known) codec).serialize fresh m = .ok packet ∧
      packet.properties = { m.properties with
        typeName := some m.type.name
        correlationId := some ((m.properties.correlationId.filter (fun id => id ≠ "")).getD fresh) } ∧
      (m.body = none ↔ packet.payload = []) ∧
      (DefaultStrategy.mk (.registry known) codec).deserialize packet = .ok ⟨m.type, m.body, packet.properties⟩ ∧
      ∀ fresh', (DefaultStrategy.mk (.registry known) codec).serialize fresh'
        ⟨m.type, m.body, packet.properties⟩ = .ok packet := by
  have hcodec : ∀ b, m.body = some b → ∃ payload, codec.encode m.type b = .ok payload ∧ payload ≠ [] ∧
      ∀ t, t = m.type → codec.decode t payload = .ok b := by
    intro b hb
    obtain ⟨payload, hencode, hne, hdecode⟩ := hbody b hb
    exact ⟨payload, hencode, hne, fun t ht => ht ▸ hdecode⟩
  obtain ⟨payload, hencode, hempty, hdecode⟩ := exists_payload hcodec
  have hnameOf := TypeNames.nameOf_registry known hname
  have hser := serialize_of_name (s := ⟨.registry known, codec⟩) hnameOf hencode fresh
  rw [ensureCorrelationId_eq] at hser
  refine ⟨_, hser, rfl, hempty, ?_, fun fresh' => ?_⟩
  · exact deserialize_of_name rfl (TypeNames.typeOf_registry hknown) (hdecode _ rfl)
  · -- The name is the same, and the identifier is there now and not empty.
    have hid := getD_filter_ne_empty (o := m.properties.correlationId) hfresh
    rw [serialize_of_name (m := Message.mk m.type m.body _) hnameOf hencode,
      ensureCorrelationId_of_some (p := Properties.mk ..) rfl hid]

/-- Knows two types. -/
def office : DefaultStrategy where
  names := .registry [⟨"news::Opened"⟩, ⟨"news::Closed"⟩]
  codec := .msgPack

/-- A message with an empty identifier and the name of another type. -/
def notice : Message :=
  ⟨⟨"news::Closed"⟩, some (.object [("text", .string "Hi")]),
    { correlationId := some "", typeName := some "news::Opened" }⟩

theorem read_back_and_republished_notice : ∃ packet, office.serialize "id" notice = .ok packet ∧
    packet.properties.correlationId = some "id" ∧ packet.properties.typeName = some "news::Closed" ∧
    office.deserialize packet = .ok ⟨⟨"news::Closed"⟩, notice.body, packet.properties⟩ ∧
    office.serialize "other" ⟨⟨"news::Closed"⟩, notice.body, packet.properties⟩ = .ok packet := by
  have hbody : ∀ b, notice.body = some b → BodyCodec.msgPack.Restores notice.type b := by
    intro b hb
    cases hb
    exact ⟨[129, 164, 116, 101, 120, 116, 162, 72, 105], rfl, by simp, rfl⟩
  have hknown : notice.type ∈ [⟨"news::Opened"⟩, ⟨"news::Closed"⟩] := by decide
  have hfresh : "id" ≠ "" := by decide
  obtain ⟨packet, hser, hprops, -, hread, hagain⟩ := read_back_and_republished hknown (by decide) hbody hfresh
  exact ⟨packet, hser, by rw [hprops]; rfl, by rw [hprops]; rfl, hread, hagain "other"⟩

end DefaultStrategy

end BrokerClient
