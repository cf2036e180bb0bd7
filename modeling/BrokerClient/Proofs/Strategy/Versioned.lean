import BrokerClient.Proofs.Message.TypeProperty
import BrokerClient.Proofs.Strategy.Payload
import BrokerClient.Strategy.Versioned

/-!
# Messages under the names of a chain

A receiver reads a message as the first type of its chain that it knows (`read_as_first_known`). A message whose
type supersedes nothing keeps the header that it came with, and a receiver tries the names in it too
(`tried_names`).
-/
namespace BrokerClient

/-- What the one codec makes of a body is not empty, and the other reads the body back, whatever the type. -/
def BodyCodec.Carries (writer reader : BodyCodec) (t : MessageType) (b : Body) : Prop :=
  ∃ payload, writer.encode t b = .ok payload ∧ payload ≠ [] ∧ ∀ t', reader.decode t' payload = .ok b

/-! ## Bodies and identifiers -/

namespace Strategy

theorem decodeBody_encodeBody {writer reader : BodyCodec} {m : Message}
    (h : ∀ b, m.body = some b → writer.Carries reader m.type b) :
    ∃ payload, encodeBody writer m = .ok payload ∧ ∀ t, decodeBody reader t payload = .ok m.body := by
  obtain ⟨payload, hencode, -, hdecode⟩ := exists_payload (P := fun _ => True) fun b hb => by
    obtain ⟨payload, he, hne, hd⟩ := h b hb
    exact ⟨payload, he, hne, fun t _ => hd t⟩
  exact ⟨payload, hencode, fun t => hdecode t trivial⟩

theorem ofProperties_ensureCorrelationId (fresh : String) (p : Properties) :
    TypeProperty.ofProperties (ensureCorrelationId fresh p) = TypeProperty.ofProperties p := by
  unfold ensureCorrelationId
  split
  · split <;> rfl
  · rfl

end Strategy

namespace VersionedStrategy

open Strategy TypeProperty

variable {s writer reader : VersionedStrategy} {fresh : String} {m : Message} {packet : Packet} {wire : List String}

/-! ## Packets -/

theorem serialize_eq_ok_iff : s.serialize fresh m = .ok packet ↔ ∃ payload q,
    encodeBody s.codec m = .ok payload ∧ ofType m.type s.names s.supersession = .ok q ∧
      packet = ⟨ensureCorrelationId fresh (q.appendTo m.properties), payload⟩ := by
  unfold serialize
  cases encodeBody s.codec m with
  | error e => simp [bind, Except.bind]
  | ok payload =>
      cases ofType m.type s.names s.supersession with
      | error e => simp [bind, Except.bind]
      | ok q => simp [bind, Except.bind, pure, Except.pure, eq_comm]

theorem deserialize_of_resolve {t : MessageType} {b : Option Body}
    (ht : (ofProperties packet.properties).resolve s.names = .ok t) (hb : decodeBody s.codec t packet.payload = .ok b) :
    s.deserialize packet = .ok ⟨t, b, packet.properties⟩ := by
  simp only [deserialize, ht, hb]
  rfl

theorem deserialize_of_unknown {e : UnknownType} (h : (ofProperties packet.properties).resolve s.names = .error e) :
    s.deserialize packet = .error (.unknownType e) := by
  simp only [deserialize, h]

theorem resolve_of_deserialize (h : s.deserialize packet = .ok m) :
    (ofProperties packet.properties).resolve s.names = .ok m.type := by
  unfold deserialize at h
  split at h
  · cases h
  · rename_i t ht
    rw [ht]
    cases hb : decodeBody s.codec t packet.payload with
    | error e => rw [hb] at h; cases h
    | ok b => rw [hb] at h; cases h; rfl

theorem exists_packet {first : String} {rest : List String} {payload : Text.Octets}
    (hchain : writer.names.NamesChain writer.supersession m.type (first :: rest))
    (hbody : encodeBody writer.codec m = .ok payload) (fresh : String) :
    ∃ packet, writer.serialize fresh m = .ok packet ∧ packet.payload = payload :=
  ⟨_, serialize_eq_ok_iff.2 ⟨payload, ⟨first, rest⟩, hbody, ofType_eq_ok_iff.2 hchain, rfl⟩, rfl⟩

theorem ofProperties_of_serialize {first : String} {rest : List String}
    (hchain : writer.names.NamesChain writer.supersession m.type (first :: rest))
    (h : writer.serialize fresh m = .ok packet) :
    ofProperties packet.properties = ofProperties ((TypeProperty.mk first rest).appendTo m.properties) := by
  obtain ⟨payload, q, -, hq, rfl⟩ := serialize_eq_ok_iff.1 h
  have hnames : ofType m.type writer.names writer.supersession = .ok ⟨first, rest⟩ := ofType_eq_ok_iff.2 hchain
  rw [hnames] at hq
  cases hq
  exact ofProperties_ensureCorrelationId fresh _

/-- A receiver tries the names of the chain. If there is only one, it goes on with those of a header that the
message had before. -/
theorem candidates_of_serialize {first : String} {rest : List String}
    (hchain : writer.names.NamesChain writer.supersession m.type (first :: rest)) (hfirst : first ≠ "")
    (hrest : ∀ n ∈ rest, Plain n) (h : writer.serialize fresh m = .ok packet) :
    (ofProperties packet.properties).candidates =
      first :: if rest = [] then (ofProperties m.properties).alternatives else rest := by
  have hempty : first.isEmpty = false := by simpa using hfirst
  rw [ofProperties_of_serialize hchain h, ofProperties_appendTo hrest]
  simp [candidates, hempty]

/-- If the chain goes on, a receiver tries its second name too, whatever the others are. -/
theorem exists_candidates_eq {first second : String} {rest : List String}
    (hchain : writer.names.NamesChain writer.supersession m.type (first :: second :: rest)) (hfirst : first ≠ "")
    (hsecond : Plain second) (h : writer.serialize fresh m = .ok packet) :
    ∃ more, (ofProperties packet.properties).candidates = first :: second :: more := by
  obtain ⟨more, hmore⟩ := ofProperties_appendTo_cons first hsecond rest m.properties
  have hempty : first.isEmpty = false := by simpa using hfirst
  rw [ofProperties_of_serialize hchain h, hmore]
  exact ⟨more, by simp [candidates, hempty]⟩

/-! ## Reading along the chain -/

/-- A message is written under the names of its chain. A receiver reads it as the type of the first name that it
knows, with its body and the properties of the packet, or fails with all the names. -/
theorem read_as_first_known {first : String} {rest : List String}
    (hchain : writer.names.NamesChain writer.supersession m.type (first :: rest)) (hfirst : first ≠ "")
    (hrest : ∀ n ∈ rest, Plain n) (hheader : m.properties.header? alternativesHeader = none)
    (hbody : ∀ b, m.body = some b → writer.codec.Carries reader.codec m.type b) (fresh : String) :
    ∃ packet, writer.serialize fresh m = .ok packet ∧
      (∀ before name after t, first :: rest = before ++ name :: after → (∀ n ∈ before, ¬reader.names.Knows n) →
        reader.names.typeOf name = .ok t → reader.deserialize packet = .ok ⟨t, m.body, packet.properties⟩) ∧
      ((∀ n ∈ first :: rest, ¬reader.names.Knows n) →
        reader.deserialize packet = .error (.unknownType ⟨first :: rest⟩)) := by
  obtain ⟨payload, hencode, hdecode⟩ := decodeBody_encodeBody hbody
  obtain ⟨packet, hser, hpayload⟩ := exists_packet hchain hencode fresh
  have hnone : (ofProperties m.properties).alternatives = [] := by simp only [ofProperties, hheader, Option.bind_none]
  have hcand : (ofProperties packet.properties).candidates = first :: rest := by
    rw [candidates_of_serialize hchain hfirst hrest hser, hnone]
    split
    · rename_i hrest; rw [hrest]
    · rfl
  refine ⟨packet, hser, fun before name after t hsplit hbefore ht => ?_, fun hunknown => ?_⟩
  · exact deserialize_of_resolve (resolve_of_knows (hcand.trans hsplit) hbefore ht) (by rw [hpayload]; exact hdecode t)
  · rw [deserialize_of_unknown (resolve_of_unknown (by rwa [hcand])), hcand]

/-- Writes messages of three versions of a type. -/
def newsroom : VersionedStrategy where
  names := .registry []
  codec := .msgPack
  supersession := .ofPairs [(⟨"news::V2"⟩, ⟨"news::V1"⟩), (⟨"news::V3"⟩, ⟨"news::V2"⟩)]

/-- Knows the two older versions. -/
def subscriber : VersionedStrategy where
  names := .registry [⟨"news::V1"⟩, ⟨"news::V2"⟩]
  codec := .msgPack
  supersession := .empty

def newest : Message :=
  ⟨⟨"news::V3"⟩, some (.object [("text", .string "Hi")]), {}⟩

theorem read_as_first_known_subscriber : ∃ packet, newsroom.serialize "id" newest = .ok packet ∧
    subscriber.deserialize packet = .ok ⟨⟨"news::V2"⟩, newest.body, packet.properties⟩ := by
  have hchain : newsroom.names.NamesChain newsroom.supersession newest.type ["news::V3", "news::V2", "news::V1"] :=
    ⟨_, .newer rfl (.newer rfl (.oldest rfl)), rfl⟩
  have hbody : ∀ b, newest.body = some b → newsroom.codec.Carries subscriber.codec newest.type b := by
    intro b hb
    cases hb
    exact ⟨[129, 164, 116, 101, 120, 116, 162, 72, 105], rfl, by simp, fun _ => rfl⟩
  have hunknown : ¬subscriber.names.Knows "news::V3" := by
    rintro ⟨t, ht⟩
    cases ht
  obtain ⟨packet, hser, hfirst, -⟩ := read_as_first_known hchain (by simp) (by decide) rfl hbody "id"
  exact ⟨packet, hser, hfirst ["news::V3"] "news::V2" ["news::V1"] _ rfl (by simpa using hunknown) rfl⟩

/-! ## Headers that were there before -/

/-- What a receiver tries for a message with these names: just them, or a single one and then the names in the header
that the message had before. -/
def namesTried (m : Message) : List String → List String
  | [only] => only :: (ofProperties m.properties).alternatives
  | wire => wire

/-- A receiver reads a message as the type of one of the names that it tries, or fails with all of them. -/
theorem tried_names (hchain : writer.names.NamesChain writer.supersession m.type wire) (hplain : ∀ n ∈ wire, Plain n)
    (h : writer.serialize fresh m = .ok packet) (reader : VersionedStrategy) :
    (ofProperties packet.properties).candidates = namesTried m wire ∧
      (∀ m', reader.deserialize packet = .ok m' → ∃ n ∈ namesTried m wire, reader.names.typeOf n = .ok m'.type) ∧
      ((∀ n ∈ namesTried m wire, ¬reader.names.Knows n) →
        reader.deserialize packet = .error (.unknownType ⟨namesTried m wire⟩)) := by
  have hcand : (ofProperties packet.properties).candidates = namesTried m wire := by
    cases wire with
    | nil => exact absurd rfl hchain.ne_nil
    | cons first rest =>
        rw [candidates_of_serialize hchain (hplain first List.mem_cons_self).nonempty
          (fun n hn => hplain n (List.mem_cons_of_mem first hn)) h]
        cases rest <;> rfl
  refine ⟨hcand, fun m' hm' => ?_, fun hunknown => ?_⟩
  · rw [← hcand]
    exact exists_of_resolve (resolve_of_deserialize hm')
  · rw [deserialize_of_unknown (resolve_of_unknown (by rwa [hcand])), hcand]

/-- An order that is published again with the header of an earlier message. -/
def republished : Message :=
  ⟨⟨"orders::New"⟩, none, ({} : Properties).withHeader alternativesHeader (.string "news::V1")⟩

theorem tried_names_republished : ∃ packet, newsroom.serialize "id" republished = .ok packet ∧
    (ofProperties packet.properties).candidates = ["orders::New", "news::V1"] := by
  have hchain : newsroom.names.NamesChain newsroom.supersession republished.type ["orders::New"] :=
    ⟨_, .oldest rfl, rfl⟩
  exact ⟨_, rfl, (tried_names hchain (by decide) rfl subscriber).1⟩

/-- A receiver may read a message as a type outside its chain. -/
theorem not_only_names_of_chain : ¬∀ (writer reader : VersionedStrategy) (m m' : Message) (packet : Packet)
    (fresh : String) (wire : List String), writer.names.NamesChain writer.supersession m.type wire →
    (∀ n ∈ wire, Plain n) → writer.serialize fresh m = .ok packet → reader.deserialize packet = .ok m' →
    (ofProperties packet.properties).candidates = wire ∧ ∃ n ∈ wire, reader.names.typeOf n = .ok m'.type := by
  intro h
  obtain ⟨-, n, hn, ht⟩ := h newsroom subscriber republished _ _ "id" ["orders::New"]
    ⟨_, .oldest rfl, rfl⟩ (by decide) rfl rfl
  rw [List.mem_singleton.1 hn] at ht
  cases ht

end VersionedStrategy

end BrokerClient
