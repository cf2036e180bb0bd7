import BrokerClient.Proofs.Message.Candidates
import BrokerClient.Proofs.Strategy.Default
import BrokerClient.Proofs.Strategy.Versioned

/-!
# Strategies that agree

Where no version plays a part, a versioned strategy writes and reads what the default one with its names and its codec
does (`VersionedStrategy.agrees_with_unversioned`).
-/
namespace BrokerClient

/-! ## Headers without names -/

namespace TypeProperty

theorem splitNames_of_blank {text : String}
    (h : ∀ segment ∈ text.toList.splitOn ';', ∀ c ∈ segment, Text.isBlank c = true) : splitNames text = [] :=
  splitNames_eq_nil_iff.2 h

@[simp] theorem ofProperties_primary (p : Properties) : (ofProperties p).primary = p.typeName.getD "" := rfl

theorem candidates_of_no_alternatives {p : Properties} (hn : p.typeName ≠ some "")
    (ha : (ofProperties p).alternatives = []) : (ofProperties p).candidates = p.typeName.toList := by
  cases ht : p.typeName with
  | none => simp [candidates, ha, ht]
  | some name =>
      have hempty : name.isEmpty = false := by simpa [ht] using hn
      simp [candidates, ha, ht, hempty]

theorem ofType_of_oldest {t : MessageType} {names : TypeNames} {s : Supersession} (h : s.predecessor? t = none) :
    ofType t names s = (names.nameOf t).map (⟨·, []⟩) := by
  have hchain : s.chain t = .ok [t] := Supersession.chain_eq_ok_iff.2 (.oldest h)
  simp only [ofType, hchain]
  cases hn : names.nameOf t <;> simp [bind, Except.bind, pure, Except.pure, Except.map, hn]

theorem nameOf_of_ofType {t : MessageType} {names : TypeNames} {s : Supersession} {q : TypeProperty}
    (h : ofType t names s = .ok q) : names.nameOf t = .ok q.primary := by
  obtain ⟨ts, hl, hnames⟩ := ofType_eq_ok_iff.1 h
  cases hl <;> exact (List.cons.inj hnames).1

theorem typeName_appendTo (q : TypeProperty) (p : Properties) : (q.appendTo p).typeName = some q.primary := by
  unfold appendTo
  split <;> rfl

end TypeProperty

theorem Strategy.decodeBody_of_restores {codec : BodyCodec} {m : Message} {payload : Text.Octets}
    (h : ∀ b, m.body = some b → codec.Restores m.type b) (he : encodeBody codec m = .ok payload) :
    decodeBody codec m.type payload = .ok m.body := by
  obtain ⟨payload', he', -, hd⟩ := exists_payload (P := (· = m.type)) fun b hb => by
    obtain ⟨payload, hencode, hne, hdecode⟩ := h b hb
    exact ⟨payload, hencode, hne, fun t ht => ht ▸ hdecode⟩
  rw [he] at he'
  cases he'
  exact hd m.type rfl

namespace VersionedStrategy

open Strategy TypeProperty

variable {v : VersionedStrategy} {known : List MessageType} {fresh : String} {m : Message} {packet : Packet}

/-- The default strategy with the same names and the same codec. -/
def unversioned (v : VersionedStrategy) : DefaultStrategy where
  names := v.names
  codec := v.codec

theorem serialize_unversioned (h : v.supersession.predecessor? m.type = none) :
    v.serialize fresh m = .ok packet ↔ v.unversioned.serialize fresh m = .ok packet := by
  simp only [serialize, DefaultStrategy.serialize, unversioned, ofType_of_oldest h]
  cases encodeBody v.codec m <;> cases v.names.nameOf m.type <;>
    simp [bind, Except.bind, pure, Except.pure, Except.map, appendTo]

theorem unversioned_deserialize {name : String} {t : MessageType} (hn : packet.properties.typeName = some name)
    (ht : v.names.typeOf name = .ok t) :
    v.unversioned.deserialize packet = (decodeBody v.codec t packet.payload).map (⟨t, ·, packet.properties⟩) :=
  DefaultStrategy.deserialize_eq_map hn ht

theorem deserialize_eq_map {t : MessageType} (ht : (ofProperties packet.properties).resolve v.names = .ok t) :
    v.deserialize packet = (decodeBody v.codec t packet.payload).map (⟨t, ·, packet.properties⟩) := by
  simp only [deserialize, ht]
  cases decodeBody v.codec t packet.payload <;> rfl

/-- A known first name decides. -/
theorem deserialize_eq_unversioned {name : String} {t : MessageType} (hn : packet.properties.typeName = some name)
    (hne : name ≠ "") (ht : v.names.typeOf name = .ok t) :
    v.deserialize packet = v.unversioned.deserialize packet := by
  have hempty : name.isEmpty = false := by simpa using hne
  have hcand : (ofProperties packet.properties).candidates =
      name :: (ofProperties packet.properties).alternatives := by
    simp [candidates, hn, hempty]
  rw [deserialize_eq_map (resolve_of_first hcand ht), unversioned_deserialize hn ht]

/-- So does the lack of names in the header, be there a name of the type or not. -/
theorem deserialize_of_no_alternatives (hv : v.names = .registry known) (hn : packet.properties.typeName ≠ some "")
    (ha : (ofProperties packet.properties).alternatives = []) :
    v.deserialize packet = v.unversioned.deserialize packet := by
  have hcand := candidates_of_no_alternatives hn ha
  cases ht : packet.properties.typeName with
  | none =>
      rw [ht, Option.toList_none] at hcand
      rw [deserialize_of_unknown (resolve_of_unknown (by simp [hcand])), hcand]
      simp only [DefaultStrategy.deserialize, ht]
  | some name =>
      rw [ht, Option.toList_some] at hcand
      cases hk : v.names.typeOf name with
      | ok t =>
          have hne : name ≠ "" := by simpa [ht] using hn
          exact deserialize_eq_unversioned ht hne hk
      | error e =>
          have hunknown := TypeNames.not_knows_of_error hk
          rw [deserialize_of_unknown (resolve_of_unknown (by simpa [hcand] using hunknown)), hcand]
          rw [hv] at hk
          obtain rfl := TypeNames.error_of_typeOf_registry hk
          simp only [DefaultStrategy.deserialize, ht, unversioned, hv, hk]

theorem typeName_of_serialize (h : v.serialize fresh m = .ok packet) :
    ∃ name, v.names.nameOf m.type = .ok name ∧ packet.properties.typeName = some name := by
  obtain ⟨payload, q, -, hq, rfl⟩ := serialize_eq_ok_iff.1 h
  refine ⟨q.primary, nameOf_of_ofType hq, ?_⟩
  simp only [ensureCorrelationId_eq, typeName_appendTo]

theorem encodeBody_of_serialize (h : v.serialize fresh m = .ok packet) :
    encodeBody v.codec m = .ok packet.payload := by
  obtain ⟨payload, q, hencode, -, rfl⟩ := serialize_eq_ok_iff.1 h
  exact hencode

/-- Versioned strategies and default ones with the same registry and the same codec agree: they write the same packet of
a message whose type supersedes nothing, they read the same message of a packet, or fail with the same error, if there
is no name in its header and the name of its type, if there, is not empty, and they read a message that was written
under the names of a chain as its own type, if they know it and its name is not empty. -/
theorem agrees_with_unversioned (hv : v.names = .registry known) :
    (∀ fresh m packet, v.supersession.predecessor? m.type = none →
      (v.serialize fresh m = .ok packet ↔ v.unversioned.serialize fresh m = .ok packet)) ∧
    (∀ packet : Packet, packet.properties.typeName ≠ some "" →
      (∀ text, (packet.properties.header? alternativesHeader).bind HeaderValue.asText = some text →
        ∀ segment ∈ text.toList.splitOn ';', ∀ c ∈ segment, Text.isBlank c = true) →
      v.deserialize packet = v.unversioned.deserialize packet) ∧
    ∀ (writer : VersionedStrategy) known' fresh m packet, writer.names = .registry known' →
      writer.serialize fresh m = .ok packet → m.type ∈ known → m.type.name ≠ "" →
      v.deserialize packet = v.unversioned.deserialize packet ∧
        v.unversioned.deserialize packet =
          (decodeBody v.codec m.type packet.payload).map (⟨m.type, ·, packet.properties⟩) ∧
        (writer.codec = v.codec → (∀ b, m.body = some b → v.codec.Restores m.type b) →
          v.unversioned.deserialize packet = .ok ⟨m.type, m.body, packet.properties⟩) := by
  refine ⟨fun fresh m packet h => serialize_unversioned h, fun packet hn hblank => ?_,
    fun writer known' fresh m packet hw hser hknown hne => ?_⟩
  · apply deserialize_of_no_alternatives hv hn
    simp only [ofProperties]
    split
    · rename_i text htext
      exact splitNames_of_blank (hblank text htext)
    · rfl
  · obtain ⟨name, hnameOf, htype⟩ := typeName_of_serialize hser
    rw [hw] at hnameOf
    obtain rfl := TypeNames.eq_of_nameOf_registry hnameOf
    have hknows : v.names.typeOf m.type.name = .ok m.type := by rw [hv]; exact TypeNames.typeOf_registry hknown
    have hread := unversioned_deserialize htype hknows
    refine ⟨deserialize_eq_unversioned htype hne hknows, hread, fun hcodec hbody => ?_⟩
    have hencode := encodeBody_of_serialize hser
    rw [hcodec] at hencode
    rw [hread, decodeBody_of_restores hbody hencode]
    rfl

/-- Knows the first and the last of three versions. -/
def archive : VersionedStrategy where
  names := .registry [⟨"news::V1"⟩, ⟨"news::V3"⟩]
  codec := .msgPack
  supersession := newsroom.supersession

/-- A message of the first version. -/
def oldest : Message :=
  ⟨⟨"news::V1"⟩, none, {}⟩

/-- Properties with an unknown name and with nothing but blanks in the header. -/
def unheard : Properties :=
  ({ typeName := some "news::V2" } : Properties).withHeader alternativesHeader (.bytes (Text.utf8 " ;;\t"))

theorem agrees_with_unversioned_archive :
    (∃ packet, archive.serialize "id" oldest = .ok packet ∧ archive.unversioned.serialize "id" oldest = .ok packet) ∧
    archive.deserialize ⟨unheard, []⟩ = archive.unversioned.deserialize ⟨unheard, []⟩ ∧
    ∃ packet, newsroom.serialize "id" newest = .ok packet ∧
      archive.deserialize packet = archive.unversioned.deserialize packet ∧
      archive.unversioned.deserialize packet = .ok ⟨⟨"news::V3"⟩, newest.body, packet.properties⟩ := by
  obtain ⟨hwrite, hread, hchain⟩ := agrees_with_unversioned (v := archive) rfl
  obtain ⟨packet, hp⟩ : ∃ packet, archive.serialize "id" oldest = .ok packet := ⟨_, rfl⟩
  obtain ⟨packet', hp'⟩ : ∃ packet, newsroom.serialize "id" newest = .ok packet := ⟨_, rfl⟩
  have hbody : ∀ b, newest.body = some b → archive.codec.Restores newest.type b := by
    intro b hb
    cases hb
    exact ⟨[129, 164, 116, 101, 120, 116, 162, 72, 105], rfl, by simp, rfl⟩
  have hblank : ∀ text, (unheard.header? alternativesHeader).bind HeaderValue.asText = some text →
      ∀ segment ∈ text.toList.splitOn ';', ∀ c ∈ segment, Text.isBlank c = true := by
    intro text htext
    obtain rfl : " ;;\t" = text := Option.some.inj htext
    have hsplit : " ;;\t".toList.splitOn ';' = [[' '], [], ['\t']] := rfl
    have hspace : Text.isBlank ' ' = true := by decide
    have htab : Text.isBlank '\t' = true := by decide
    rw [hsplit]
    simp [hspace, htab]
  obtain ⟨hsame, -, hok⟩ := hchain newsroom [] "id" newest packet' rfl hp' (by decide) (by decide)
  exact ⟨⟨packet, hp, (hwrite "id" oldest packet rfl).1 hp⟩, hread ⟨unheard, []⟩ (by decide) hblank,
    packet', hp', hsame, hok rfl hbody⟩

end VersionedStrategy

end BrokerClient
