import BrokerClient.Proofs.Strategy.Damage
import BrokerClient.Proofs.Text.Utf8

/-!
# Lengths of names on the wire

A registry limits the characters of a name. Both strategies publish a message whatever the octets of its names are, as
long as none has more than 255 characters (`named_within`). An ASCII name has as many octets as characters, any other
has up to four times as many, so a published name need not fit 255 octets (`not_within_octets`).
-/
namespace BrokerClient

namespace Strategy

variable {s : Strategy} {known : List MessageType} {fresh : String} {m : Message} {packet : Packet}
  {payload : Text.Octets} {t : MessageType} {ts : List MessageType}

def names : Strategy → TypeNames
  | .default s => s.names
  | .versioned s => s.names

/-- The types whose names are written for a type: it alone, or it and all that it supersedes. -/
def NamesTypes : Strategy → MessageType → List MessageType → Prop
  | .default _, t, ts => ts = [t]
  | .versioned s, t, ts => s.supersession.Lineage t ts

theorem NamesTypes.mem_self (h : s.NamesTypes t ts) : t ∈ ts := by
  cases s with
  | default s => exact h ▸ List.mem_singleton_self t
  | versioned s => exact Supersession.Lineage.mem_self h

theorem typeName_ensureCorrelationId (fresh : String) (p : Properties) :
    (ensureCorrelationId fresh p).typeName = p.typeName := by
  rw [ensureCorrelationId_eq]

/-- What is published was written under the name of its type, and no name was too long. -/
theorem named_of_serialize (hs : s.names = .registry known) (h : s.serialize fresh m = .ok packet) :
    packet.properties.typeName = some m.type.name ∧
      ∃ ts, s.NamesTypes m.type ts ∧ ∀ t ∈ ts, t.name.length ≤ 255 := by
  cases s with
  | default s =>
      simp only [names] at hs
      obtain ⟨name, payload, hname, -, rfl⟩ := DefaultStrategy.serialize_eq_ok_iff.1 h
      rw [hs, TypeNames.nameOf_registry_eq_ok_iff] at hname
      obtain ⟨hlen, rfl⟩ := hname
      exact ⟨typeName_ensureCorrelationId .., [m.type], rfl, by simpa [TypeNames.nameLimit] using hlen⟩
  | versioned s =>
      simp only [names] at hs
      obtain ⟨payload, q, -, hq, rfl⟩ := VersionedStrategy.serialize_eq_ok_iff.1 h
      have hname := TypeProperty.nameOf_of_ofType hq
      obtain ⟨ts, hts, hnames⟩ := TypeProperty.ofType_eq_ok_iff.1 hq
      rw [hs] at hname hnames
      refine ⟨?_, ts, hts, (TypeNames.map_nameOf_registry_iff.1 hnames).1⟩
      rw [typeName_ensureCorrelationId, TypeProperty.typeName_appendTo, TypeNames.eq_of_nameOf_registry hname]

theorem exists_packet (hs : s.names = .registry known) (hbody : encodeBody s.codec m = .ok payload)
    (hts : s.NamesTypes m.type ts) (hlen : ∀ t ∈ ts, t.name.length ≤ 255) (fresh : String) :
    ∃ packet, s.serialize fresh m = .ok packet := by
  cases s with
  | default s =>
      simp only [names] at hs
      have hname : s.names.nameOf m.type = .ok m.type.name := by
        rw [hs]
        exact TypeNames.nameOf_registry known (hlen _ hts.mem_self)
      exact ⟨_, DefaultStrategy.serialize_of_name hname hbody fresh⟩
  | versioned s =>
      simp only [names] at hs
      have hchain := TypeNames.namesChain_registry known hts hlen
      obtain ⟨name, names, hnames⟩ := List.exists_cons_of_ne_nil hchain.ne_nil
      rw [← hs, hnames] at hchain
      obtain ⟨packet, hpacket, -⟩ := VersionedStrategy.exists_packet hchain hbody fresh
      exact ⟨packet, hpacket⟩

/-- A message is published just if its body is encoded and none of the names that are written for it has more than 255
characters. It is published under the name of its type, whose octets are at most four times as many, and as many as its
characters if they are ASCII. -/
theorem named_within (hs : s.names = .registry known) (fresh : String) (m : Message) :
    ((∃ packet, s.serialize fresh m = .ok packet) ↔
      (∃ payload, encodeBody s.codec m = .ok payload) ∧
        ∃ ts, s.NamesTypes m.type ts ∧ ∀ t ∈ ts, t.name.length ≤ 255) ∧
    ∀ packet, s.serialize fresh m = .ok packet →
      packet.properties.typeName = some m.type.name ∧ m.type.name.length ≤ 255 ∧
      (Text.utf8 m.type.name).length ≤ 4 * 255 ∧
      ((∀ c ∈ m.type.name.toList, c.toNat < 128) → (Text.utf8 m.type.name).length ≤ 255) := by
  refine ⟨⟨?_, ?_⟩, fun packet h => ?_⟩
  · rintro ⟨packet, h⟩
    exact ⟨⟨_, encodeBody_of_serialize h⟩, (named_of_serialize hs h).2⟩
  · rintro ⟨⟨payload, hbody⟩, ts, hts, hlen⟩
    exact exists_packet hs hbody hts hlen fresh
  · obtain ⟨hname, ts, hts, hlen⟩ := named_of_serialize hs h
    have hchars := hlen _ hts.mem_self
    refine ⟨hname, hchars, ?_, fun hascii => ?_⟩
    · exact (Text.length_utf8_le _).trans (Nat.mul_le_mul_left 4 hchars)
    · rwa [Text.length_utf8_of_ascii hascii]

/-- A type with a name of as many characters, each of two octets. -/
def accented (n : Nat) : MessageType :=
  ⟨.ofList (List.replicate n 'é')⟩

theorem length_accented (n : Nat) : (accented n).name.length = n := by
  rw [accented, String.length_ofList, List.length_replicate]

theorem length_utf8_accented (n : Nat) : (Text.utf8 (accented n).name).length = 2 * n := by
  have hsize : ∀ c ∈ (accented n).name.toList, c.utf8Size = 2 := by
    intro c hc
    rw [accented, String.toList_ofList] at hc
    rw [List.eq_of_mem_replicate hc]
    rfl
  rw [Text.length_utf8_of_forall hsize, length_accented]

/-- Two octets for each of 255 characters are published, one more character is not. -/
theorem named_within_accented :
    (∃ packet, (default ⟨.registry [], .json⟩).serialize "id" ⟨accented 255, none, {}⟩ = .ok packet ∧
      packet.properties.typeName = some (accented 255).name) ∧
    ∀ packet, (versioned ⟨.registry [], .json, .empty⟩).serialize "id" ⟨accented 256, none, {}⟩ ≠ .ok packet := by
  have hdefault : (default ⟨.registry [], .json⟩).names = .registry [] := rfl
  have hversioned : (versioned ⟨.registry [], .json, .empty⟩).names = .registry [] := rfl
  constructor
  · obtain ⟨hpublished, hnamed⟩ := named_within hdefault "id" ⟨accented 255, none, {}⟩
    obtain ⟨packet, hpacket⟩ := hpublished.2 ⟨⟨[], rfl⟩, [accented 255], rfl, by simp [length_accented]⟩
    exact ⟨packet, hpacket, (hnamed packet hpacket).1⟩
  · intro packet hpacket
    have hlen := ((named_within hversioned "id" ⟨accented 256, none, {}⟩).2 packet hpacket).2.1
    rw [length_accented] at hlen
    omega

/-- A published name may have more than 255 octets. -/
theorem not_within_octets : ¬∀ (s : Strategy) (known : List MessageType) (fresh : String) (m : Message)
    (packet : Packet), s.names = .registry known → s.serialize fresh m = .ok packet →
    ∃ name, packet.properties.typeName = some name ∧ (Text.utf8 name).length ≤ 255 := by
  intro h
  have hs : (default ⟨.registry [], .json⟩).names = .registry [] := rfl
  have hbody : encodeBody .json ⟨accented 128, none, {}⟩ = .ok [] := rfl
  have htypes : (default ⟨.registry [], .json⟩).NamesTypes (accented 128) [accented 128] := rfl
  obtain ⟨packet, hpacket⟩ := exists_packet hs hbody htypes (by simp [length_accented]) "id"
  obtain ⟨name, hname, hlen⟩ := h _ _ _ _ packet hs hpacket
  rw [(named_of_serialize hs hpacket).1, Option.some.injEq] at hname
  rw [← hname, length_utf8_accented] at hlen
  omega

end Strategy

end BrokerClient
