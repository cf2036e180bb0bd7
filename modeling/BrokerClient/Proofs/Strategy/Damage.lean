import BrokerClient.Proofs.Message.Codec
import BrokerClient.Proofs.Message.Damage
import BrokerClient.Proofs.Strategy.Agreement
import BrokerClient.Proofs.Strategy.Receiving
import BrokerClient.Strategy

/-!
# Damaged packets

What a consumer makes of a packet that lost the end of its payload (`undecodable_if_cut_off`) or got other octets behind
it (`followed_payload`), under either strategy, if it resolves the type (`Strategy.Resolves`). The properties are those
that were published.
-/
namespace BrokerClient.Strategy

variable {s writer reader : Strategy} {fresh : String} {m : Message} {packet : Packet} {p : Properties}
  {t : MessageType} {q more : Text.Octets} {ms : List (String × Body)}

/-! ## Types and codecs -/

def codec : Strategy → BodyCodec
  | .default s => s.codec
  | .versioned s => s.codec

/-- Payloads with these properties are read as the type: it is the one with the name of the type, or the one that the
first known of all the carried names stands for. -/
inductive Resolves : Strategy → Properties → MessageType → Prop where
  | named {s : DefaultStrategy} {p : Properties} {name : String} {t : MessageType} (hname : p.typeName = some name)
      (ht : s.names.typeOf name = .ok t) : Resolves (.default s) p t
  | carried {s : VersionedStrategy} {p : Properties} {wire : List String} {t : MessageType}
      (hwire : p.CarryNames wire) (ht : s.names.FirstKnown wire t) : Resolves (.versioned s) p t

theorem Resolves.deserialize (h : s.Resolves p t) (payload : Text.Octets) :
    s.deserialize ⟨p, payload⟩ = (decodeBody s.codec t payload).map (⟨t, ·, p⟩) := by
  cases h with
  | named hname ht => exact DefaultStrategy.deserialize_eq_map hname ht
  | carried hwire ht =>
      rw [Properties.carryNames_iff.1 hwire] at ht
      exact VersionedStrategy.deserialize_eq_map (TypeProperty.resolve_eq_ok_iff.2 ht)

/-- The type can be told from what is made of an empty payload, which needs no codec. -/
theorem resolves_iff : s.Resolves p t ↔ s.deserialize ⟨p, []⟩ = .ok ⟨t, none, p⟩ := by
  refine ⟨fun h => h.deserialize [], fun h => ?_⟩
  cases s with
  | default s =>
      simp only [deserialize, DefaultStrategy.deserialize] at h
      split at h
      · cases h
      · next name hname =>
        cases ht : s.names.typeOf name with
        | error e =>
            rw [ht] at h
            cases h
        | ok t' =>
            rw [ht] at h
            cases h
            exact .named hname ht
  | versioned s =>
      have ht := VersionedStrategy.resolve_of_deserialize h
      exact .carried (Properties.carryNames_iff.2 rfl) (TypeProperty.resolve_eq_ok_iff.1 ht)

theorem encodeBody_of_serialize (h : s.serialize fresh m = .ok packet) :
    encodeBody s.codec m = .ok packet.payload := by
  cases s with
  | default s => exact DefaultStrategy.encodeBody_of_serialize h
  | versioned s => exact VersionedStrategy.encodeBody_of_serialize h

theorem encode_of_serialize {b : Body} (hb : m.body = some b) (h : s.serialize fresh m = .ok packet) :
    s.codec.encode m.type b = .ok packet.payload := by
  have hencode := encodeBody_of_serialize h
  simp only [encodeBody, hb] at hencode
  split at hencode
  · next payload hpayload => rw [hpayload, Except.ok.inj hencode]
  · cases hencode

theorem Resolves.deserialize_of_undecodable {payload : Text.Octets} {reason : String} (h : s.Resolves p t)
    (hp : payload ≠ []) (hd : s.codec.decode t payload = .error reason) :
    s.deserialize ⟨p, payload⟩ = .error (.decode t reason) := by
  rw [h.deserialize, decodeBody_of_undecodable hp hd]
  rfl

/-! ## Too few octets -/

/-- A payload whose end is missing, wherever it is cut off, is not read. -/
theorem undecodable_if_cut_off (h : writer.serialize fresh m = .ok packet)
    (hcodec : writer.codec = .json ∨ writer.codec = .msgPack) (hbody : m.body = some (.object ms))
    (ho : (Body.object ms).Ordered) (hs : (Body.object ms).Throughout Body.IsShort)
    (ht : reader.Resolves packet.properties t) (hsame : reader.codec = writer.codec) (hq : CutOff packet.payload q) :
    ∃ reason, reader.deserialize ⟨packet.properties, q⟩ = .error (.decode t reason) := by
  have hencode := encode_of_serialize hbody h
  obtain ⟨reason, hreason⟩ : ∃ reason, writer.codec.decode t q = .error reason := by
    rcases hcodec with hcodec | hcodec <;> rw [hcodec] at hencode ⊢
    · exact BodyCodec.json_of_cutOff hencode hq t
    · exact BodyCodec.msgPack_of_cutOff ho hs hencode hq t
  exact ⟨reason, ht.deserialize_of_undecodable hq.nonempty (hsame ▸ hreason)⟩

/-- A body with a letter of two octets. -/
def title : Body :=
  .object [("title", .string "é")]

theorem ordered_title : title.Ordered :=
  ⟨List.pairwise_singleton _ _, trivial, trivial⟩

def headline : Message :=
  ⟨⟨"news::V1"⟩, some title, {}⟩

/-- Reads and writes the first version as JSON. -/
def gazette : DefaultStrategy where
  names := .registry [⟨"news::V1"⟩]
  codec := .json

/-- A text that is cut off inside a letter, and MessagePack that is cut off inside a key, under the names of a chain. -/
theorem undecodable_if_cut_off_headline :
    (∃ packet, (Strategy.default gazette).serialize "id" headline = .ok packet ∧
      ∃ reason, (Strategy.default gazette).deserialize ⟨packet.properties, packet.payload.take 11⟩ =
        .error (.decode ⟨"news::V1"⟩ reason)) ∧
    ∃ packet, (Strategy.versioned VersionedStrategy.newsroom).serialize "id" VersionedStrategy.newest = .ok packet ∧
      ∃ reason, (Strategy.versioned VersionedStrategy.subscriber).deserialize
        ⟨packet.properties, packet.payload.take 4⟩ = .error (.decode ⟨"news::V2"⟩ reason) := by
  constructor
  · have hser : (Strategy.default gazette).serialize "id" headline = .ok ⟨_, Text.utf8 "\x7b\"title\":\"é\"\x7d"⟩ := rfl
    have hlength : (Text.utf8 "é").length < 0x100000000 := by decide
    have hs : title.Throughout Body.IsShort := ⟨⟨by decide, by decide⟩, hlength, trivial⟩
    exact ⟨_, hser, undecodable_if_cut_off hser (.inl rfl) rfl ordered_title hs (.named rfl rfl) rfl
      ⟨List.take_prefix _ _, by decide, by decide⟩⟩
  · have hser : (Strategy.versioned VersionedStrategy.newsroom).serialize "id" VersionedStrategy.newest =
        .ok ⟨_, [129, 164, 116, 101, 120, 116, 162, 72, 105]⟩ := rfl
    have ho : (Body.object [("text", .string "Hi")]).Ordered := ⟨List.pairwise_singleton _ _, trivial, trivial⟩
    have hlength : (Text.utf8 "Hi").length < 0x100000000 := by decide
    have hs : (Body.object [("text", .string "Hi")]).Throughout Body.IsShort :=
      ⟨⟨by decide, by decide⟩, hlength, trivial⟩
    exact ⟨_, hser, undecodable_if_cut_off hser (.inr rfl) rfl ho hs (resolves_iff.2 rfl) rfl
      ⟨List.take_prefix _ _, by decide, by decide⟩⟩

/-! ## Too many octets -/

/-- Octets behind a payload, blanks apart, keep JSON from being read. MessagePack is read as if they were not there. -/
theorem followed_payload (h : writer.serialize fresh m = .ok packet) (hbody : m.body = some (.object ms))
    (hback : writer.codec.Restores m.type (.object ms)) (ht : reader.Resolves packet.properties t)
    (hsame : reader.codec = writer.codec) (hmore : ∃ o ∈ more, BodyCodec.isBlankOctet o = false) :
    (writer.codec = .json →
      ∃ reason, reader.deserialize ⟨packet.properties, packet.payload ++ more⟩ = .error (.decode t reason)) ∧
    (writer.codec = .msgPack →
      reader.deserialize ⟨packet.properties, packet.payload ++ more⟩ = .ok ⟨t, m.body, packet.properties⟩) := by
  have hencode := encode_of_serialize hbody h
  obtain ⟨payload, hpayload, hne, hdecode⟩ := hback
  rw [hencode, Except.ok.injEq] at hpayload
  subst hpayload
  have hlonger : packet.payload ++ more ≠ [] := fun hnil => hne (List.append_eq_nil_iff.1 hnil).1
  constructor <;> intro hcodec <;> rw [hcodec] at hsame hencode hdecode
  · obtain ⟨reason, hreason⟩ := BodyCodec.json_of_followed hencode hmore t
    exact ⟨reason, ht.deserialize_of_undecodable hlonger (hsame ▸ hreason)⟩
  · have hread : reader.codec.decode t (packet.payload ++ more) = .ok (.object ms) := by
      rw [hsame]
      exact BodyCodec.msgPack_of_followed hdecode more
    rw [ht.deserialize, decodeBody_of_decode hlonger hread, hbody]
    rfl

theorem followed_payload_notice :
    (∃ packet, (Strategy.default gazette).serialize "id" headline = .ok packet ∧
      ∃ reason, (Strategy.default gazette).deserialize ⟨packet.properties, packet.payload ++ [0x0A, 0x7D]⟩ =
        .error (.decode ⟨"news::V1"⟩ reason)) ∧
    ∃ packet, (Strategy.default DefaultStrategy.office).serialize "id" DefaultStrategy.notice = .ok packet ∧
      (Strategy.default DefaultStrategy.office).deserialize ⟨packet.properties, packet.payload ++ [0xC1]⟩ =
        .ok ⟨⟨"news::Closed"⟩, DefaultStrategy.notice.body, packet.properties⟩ := by
  constructor
  · have hser : (Strategy.default gazette).serialize "id" headline = .ok ⟨_, Text.utf8 "\x7b\"title\":\"é\"\x7d"⟩ := rfl
    have hf : title.Throughout Body.NoFloat := ⟨trivial, trivial, trivial⟩
    have hback : gazette.codec.Restores headline.type title := by
      obtain ⟨payload, hencode, hne, hdecode⟩ :=
        BodyCodec.carries_json (t := headline.type) ordered_title hf (by decide)
      exact ⟨payload, hencode, hne, hdecode headline.type⟩
    exact ⟨_, hser, (followed_payload hser rfl hback (.named rfl rfl) rfl ⟨0x7D, by decide, rfl⟩).1 rfl⟩
  · have hser : (Strategy.default DefaultStrategy.office).serialize "id" DefaultStrategy.notice =
        .ok ⟨_, [129, 164, 116, 101, 120, 116, 162, 72, 105]⟩ := rfl
    have hback : DefaultStrategy.office.codec.Restores DefaultStrategy.notice.type (.object [("text", .string "Hi")]) :=
      ⟨_, rfl, by decide, rfl⟩
    exact ⟨_, hser, (followed_payload hser rfl hback (.named rfl rfl) rfl ⟨0xC1, by decide, rfl⟩).2 rfl⟩

/-- An octet that begins no value goes unnoticed behind one. -/
theorem not_undecodable_if_followed : ¬∀ (writer reader : Strategy) (fresh : String) (m : Message)
    (ms : List (String × Body)) (packet : Packet) (t : MessageType) (more : Text.Octets),
    writer.serialize fresh m = .ok packet → writer.codec = .json ∨ writer.codec = .msgPack →
    m.body = some (.object ms) → writer.codec.Restores m.type (.object ms) → reader.Resolves packet.properties t →
    reader.codec = writer.codec → (∃ o ∈ more, BodyCodec.isBlankOctet o = false) →
    ∃ reason, reader.deserialize ⟨packet.properties, packet.payload ++ more⟩ = .error (.decode t reason) := by
  intro h
  obtain ⟨reason, hreason⟩ := h (.default DefaultStrategy.office) (.default DefaultStrategy.office) "id"
    DefaultStrategy.notice [("text", .string "Hi")] ⟨_, [129, 164, 116, 101, 120, 116, 162, 72, 105]⟩ ⟨"news::Closed"⟩
    [0xC1] rfl (.inr rfl) rfl ⟨_, rfl, by decide, rfl⟩ (.named rfl rfl) rfl ⟨0xC1, by decide, rfl⟩
  cases hreason

end BrokerClient.Strategy
