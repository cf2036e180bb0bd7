import BrokerClient.Contract.Catalog
import BrokerClient.Proofs.Message.Codec
import BrokerClient.Proofs.Strategy.Agreement
import BrokerClient.Proofs.Strategy.Recoding

/-!
# Orders of two versions

An order of the second version is read as one of the first by those who know only that, and as it was by those who know
both (`orderPlacedV2_read`).
-/
namespace BrokerClient

namespace Message

variable {α : Type} {c : Contract α} {a : α} {b : Body} {m : Message}

theorem ofValue_eq_ok (h : c.toBody? a = some b) (p : Properties) : ofValue c a p = .ok ⟨c.type, some b, p⟩ := by
  simp only [ofValue, h]

theorem bodyAs_eq_ok (hb : m.body = some b) (h : c.ofBody? b = some a) : m.bodyAs c = .ok (some a) := by
  simp only [bodyAs, hb, h]

end Message

namespace Catalog

open Strategy TypeProperty

variable {o : OrderPlacedV2}

/-! ## Bodies of orders -/

/-- An order as an object. -/
def orderBody (o : OrderPlacedV2) : Body :=
  .object [("order_id", .ofNat o.orderId), ("region", .string o.region)]

theorem increasing_orderBody (id region : Body) : Entries.Increasing [("order_id", id), ("region", region)] := by
  have hlt : "order_id" < "region" := by decide
  exact List.pairwise_pair.2 hlt

theorem toBody?_orderPlacedV2 (o : OrderPlacedV2) : orderPlacedV2.toBody? o = some (orderBody o) := by
  simp only [orderPlacedV2, Body.ofMembers, Entries.ofPairs_of_increasing (increasing_orderBody _ _), orderBody]

theorem orderId?_ofNat (n : UInt64) : orderId? (.ofNat n) = some n := by
  have hlt : (n.toNat : Int) < 0x10000000000000000 := by
    have := n.toNat_lt
    omega
  have hin : (Body.ofNat n).intWithin? 0 0x10000000000000000 = some (n.toNat : Int) := by
    rw [Body.intWithin?, Body.ofNat, Body.int?, Option.filter_some, if_pos]
    simp only [decide_eq_true_eq]
    exact ⟨Int.natCast_nonneg _, hlt⟩
  rw [orderId?, hin, Option.map_some, Int.toNat_natCast, UInt64.ofNat_toNat]

theorem ofBody?_orderPlaced {b id : Body} {n : UInt64} (hf : b.fields? ["order_id"] = some [some id])
    (hid : orderId? id = some n) : orderPlaced.ofBody? b = some ⟨n⟩ := by
  simp only [orderPlaced, hf, hid, Option.bind_eq_bind, Option.bind_some, Option.pure_def]

theorem ofBody?_orderPlacedV2 {b id region : Body} {n : UInt64} {s : String}
    (hf : b.fields? ["order_id", "region"] = some [some id, some region]) (hid : orderId? id = some n)
    (hs : region.string? = some s) : orderPlacedV2.ofBody? b = some ⟨n, s⟩ := by
  simp only [orderPlacedV2, hf, hid, hs, Option.bind_eq_bind, Option.bind_some, Option.pure_def]

/-- The older record passes the region over. -/
theorem orderPlaced_of_orderBody (o : OrderPlacedV2) : orderPlaced.ofBody? (orderBody o) = some ⟨o.orderId⟩ := by
  have hf : (orderBody o).fields? ["order_id"] = some [some (.ofNat o.orderId)] := by
    simp [orderBody, Body.fields?, Entries.get?]
  exact ofBody?_orderPlaced hf (orderId?_ofNat o.orderId)

theorem orderPlacedV2_of_orderBody (o : OrderPlacedV2) : orderPlacedV2.ofBody? (orderBody o) = some o := by
  have hf : (orderBody o).fields? ["order_id", "region"] = some [some (.ofNat o.orderId), some (.string o.region)] := by
    simp [orderBody, Body.fields?, Entries.get?]
  exact ofBody?_orderPlacedV2 hf (orderId?_ofNat o.orderId) rfl

theorem carries_orderBody {codec : BodyCodec} (hcodec : codec = .json ∨ codec = .msgPack) (t : MessageType)
    (h : (Text.utf8 o.region).length < 0x100000000) : codec.Carries codec t (orderBody o) := by
  have hordered : (orderBody o).Ordered := by
    simp [orderBody, Body.Ordered, Body.MembersOrdered, increasing_orderBody, Body.ofNat]
  have hdepth : (orderBody o).depth = 1 := rfl
  rcases hcodec with rfl | rfl
  · apply BodyCodec.carries_json hordered _ (by omega)
    simp [orderBody, Body.Throughout, Body.MembersThroughout, Body.NoFloat, Body.ofNat, Number.IsInteger]
  · apply BodyCodec.carries_msgPack hordered _ (by omega)
    simp [orderBody, Body.Throughout, Body.MembersThroughout, Body.IsShort, Body.ofNat, h]
    decide

/-! ## Orders on the way -/

/-- The packet of an order: it has the name of its type, a reader tries that and then the name of the older type, and
the payload is read as the object whatever the type. -/
structure HoldsOrder (codec : BodyCodec) (o : OrderPlacedV2) (p : Packet) : Prop where
  typeName : p.properties.typeName = some orderPlacedV2.type.name
  candidates : ∃ more,
    (ofProperties p.properties).candidates = orderPlacedV2.type.name :: orderPlaced.type.name :: more
  payload : ∀ t, decodeBody codec t p.payload = .ok (some (orderBody o))

namespace HoldsOrder

variable {codec : BodyCodec} {p : Packet} {h : Headers} {consumer : VersionedStrategy} {known : List MessageType}

theorem recoded (ho : HoldsOrder codec o p) (hr : p.properties.headers.Recoded h) :
    HoldsOrder codec o (p.withHeaders h) where
  typeName := ho.typeName
  candidates := by
    obtain ⟨more, hmore⟩ := ho.candidates
    have htells := Properties.TellsSame.of_recoded hr
    rw [← htells.names] at hmore
    exact ⟨more, hmore⟩
  payload := ho.payload

/-- The name of the newer type is passed over. -/
theorem read_older (ho : HoldsOrder consumer.codec o p) (hn : consumer.names = .registry known)
    (hknown : orderPlaced.type ∈ known) (hunknown : orderPlacedV2.type ∉ known) :
    consumer.deserialize p = .ok ⟨orderPlaced.type, some (orderBody o), p.properties⟩ := by
  obtain ⟨more, hmore⟩ := ho.candidates
  apply VersionedStrategy.deserialize_of_resolve _ (ho.payload orderPlaced.type)
  rw [hn]
  exact resolve_of_second hmore (TypeNames.not_knows_registry hunknown) (TypeNames.typeOf_registry hknown)

theorem read_newer (ho : HoldsOrder consumer.codec o p) (hn : consumer.names = .registry known)
    (hknown : orderPlacedV2.type ∈ known) :
    consumer.deserialize p = .ok ⟨orderPlacedV2.type, some (orderBody o), p.properties⟩ := by
  obtain ⟨more, hmore⟩ := ho.candidates
  apply VersionedStrategy.deserialize_of_resolve _ (ho.payload orderPlacedV2.type)
  rw [hn]
  exact resolve_of_first hmore (TypeNames.typeOf_registry hknown)

theorem read_unversioned (ho : HoldsOrder consumer.codec o p) (hn : consumer.names = .registry known)
    (hknown : orderPlacedV2.type ∈ known) :
    consumer.unversioned.deserialize p = .ok ⟨orderPlacedV2.type, some (orderBody o), p.properties⟩ := by
  have hname : orderPlacedV2.type.name ≠ "" := by decide
  have hknows : consumer.names.typeOf orderPlacedV2.type.name = .ok orderPlacedV2.type := by
    rw [hn]
    exact TypeNames.typeOf_registry hknown
  rw [← VersionedStrategy.deserialize_eq_unversioned ho.typeName hname hknows]
  exact ho.read_newer hn hknown

end HoldsOrder

theorem exists_orderPacket {producer : VersionedStrategy} {known older : List MessageType}
    (hcodec : producer.codec = .json ∨ producer.codec = .msgPack) (hnames : producer.names = .registry known)
    (hline : producer.supersession.Lineage orderPlacedV2.type (orderPlacedV2.type :: orderPlaced.type :: older))
    (holder : ∀ t ∈ older, t.name.length ≤ 255) (hregion : (Text.utf8 o.region).length < 0x100000000)
    (fresh : String) : ∃ packet, producer.serialize fresh ⟨orderPlacedV2.type, some (orderBody o), {}⟩ = .ok packet ∧
      HoldsOrder producer.codec o packet := by
  have hbody : ∀ b, (Message.mk orderPlacedV2.type (some (orderBody o)) {}).body = some b →
      producer.codec.Carries producer.codec orderPlacedV2.type b := by
    rintro b ⟨⟩
    exact carries_orderBody hcodec _ hregion
  obtain ⟨payload, hencode, hdecode⟩ := decodeBody_encodeBody hbody
  have hchain : producer.names.NamesChain producer.supersession orderPlacedV2.type
      (orderPlacedV2.type.name :: orderPlaced.type.name :: older.map MessageType.name) := by
    rw [hnames]
    apply TypeNames.namesChain_registry known hline
    rintro t (_ | ⟨_, _ | ⟨_, ht⟩⟩)
    · decide
    · decide
    · exact holder t ht
  obtain ⟨packet, hser, rfl⟩ := VersionedStrategy.exists_packet hchain hencode fresh
  have hname : packet.properties.typeName = some orderPlacedV2.type.name := by
    obtain ⟨name, hnameOf, htype⟩ := VersionedStrategy.typeName_of_serialize hser
    rw [hnames] at hnameOf
    obtain rfl := TypeNames.eq_of_nameOf_registry hnameOf
    exact htype
  have hcand := VersionedStrategy.exists_candidates_eq hchain (by decide) (by decide) hser
  exact ⟨packet, hser, hname, hcand, hdecode⟩

/-- An order of the second version is published by a strategy that declares it to supersede the first one, as JSON or
as MessagePack. Whatever texts in its headers become octets, a reader that knows the first version only takes it for an
order of that with the same number, and one that knows the second takes it for the order that it was. -/
theorem read_across_versions {producer : VersionedStrategy} {known older : List MessageType}
    (hcodec : producer.codec = .json ∨ producer.codec = .msgPack) (hnames : producer.names = .registry known)
    (hline : producer.supersession.Lineage orderPlacedV2.type (orderPlacedV2.type :: orderPlaced.type :: older))
    (holder : ∀ t ∈ older, t.name.length ≤ 255) (hregion : (Text.utf8 o.region).length < 0x100000000)
    (fresh : String) :
    ∃ m packet, Message.ofValue orderPlacedV2 o {} = .ok m ∧ producer.serialize fresh m = .ok packet ∧
      ∀ h, packet.properties.headers.Recoded h → ∀ (consumer : VersionedStrategy) known',
        consumer.codec = producer.codec → consumer.names = .registry known' →
        (orderPlaced.type ∈ known' → orderPlacedV2.type ∉ known' → ∃ m',
          consumer.deserialize (packet.withHeaders h) = .ok m' ∧
            m'.type = orderPlaced.type ∧ m'.bodyAs orderPlaced = .ok (some ⟨o.orderId⟩)) ∧
        (orderPlacedV2.type ∈ known' → ∃ m',
          consumer.deserialize (packet.withHeaders h) = .ok m' ∧
            consumer.unversioned.deserialize (packet.withHeaders h) = .ok m' ∧
            m'.type = orderPlacedV2.type ∧ m'.bodyAs orderPlacedV2 = .ok (some o)) := by
  obtain ⟨packet, hser, hholds⟩ := exists_orderPacket hcodec hnames hline holder hregion fresh
  refine ⟨_, packet, Message.ofValue_eq_ok (toBody?_orderPlacedV2 o) {}, hser, fun h hr consumer known' hc hn => ?_⟩
  rw [← hc] at hholds
  have hrecoded := hholds.recoded hr
  constructor
  · intro hknown hunknown
    exact ⟨_, hrecoded.read_older hn hknown hunknown, rfl, Message.bodyAs_eq_ok rfl (orderPlaced_of_orderBody o)⟩
  · intro hknown
    exact ⟨_, hrecoded.read_newer hn hknown, hrecoded.read_unversioned hn hknown, rfl,
      Message.bodyAs_eq_ok rfl (orderPlacedV2_of_orderBody o)⟩

/-- Knows both versions of orders. -/
def shop : VersionedStrategy where
  names := .registry [orderPlaced.type, orderPlacedV2.type]
  codec := .json
  supersession := .ofPairs [(orderPlacedV2.type, orderPlaced.type)]

/-- Knows the first version only. -/
def accounting : VersionedStrategy where
  names := .registry [orderPlaced.type]
  codec := .json
  supersession := .empty

/-- The greatest number, and a text with characters that are escaped or take several octets. -/
def largest : OrderPlacedV2 :=
  ⟨0xFFFFFFFFFFFFFFFF, "\"S\u00e3o Paulo\"\n"⟩

theorem read_across_versions_largest : ∃ m packet, Message.ofValue orderPlacedV2 largest {} = .ok m ∧
    shop.serialize "id" m = .ok packet ∧
    (∃ m', accounting.deserialize (packet.withHeaders packet.properties.headersToOctets.headers) = .ok m' ∧
      m'.type = orderPlaced.type ∧ m'.bodyAs orderPlaced = .ok (some ⟨0xFFFFFFFFFFFFFFFF⟩)) ∧
    ∃ m', shop.deserialize (packet.withHeaders packet.properties.headersToOctets.headers) = .ok m' ∧
      shop.unversioned.deserialize (packet.withHeaders packet.properties.headersToOctets.headers) = .ok m' ∧
      m'.type = orderPlacedV2.type ∧ m'.bodyAs orderPlacedV2 = .ok (some largest) := by
  have hline : shop.supersession.Lineage orderPlacedV2.type [orderPlacedV2.type, orderPlaced.type] :=
    .newer rfl (.oldest rfl)
  have hregion : (Text.utf8 largest.region).length < 0x100000000 := by decide
  obtain ⟨m, packet, hm, hser, hread⟩ := read_across_versions (.inl rfl) rfl hline (by simp) hregion "id"
  have hoctets := hread _ packet.properties.recoded_headersToOctets
  exact ⟨m, packet, hm, hser, (hoctets accounting _ rfl rfl).1 (by decide) (by decide),
    (hoctets shop _ rfl rfl).2 (by decide)⟩

end Catalog

end BrokerClient
