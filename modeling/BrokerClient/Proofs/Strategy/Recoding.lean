import BrokerClient.Proofs.Properties.Basic
import BrokerClient.Proofs.SortedMap
import BrokerClient.Strategy

/-!
# Headers that a broker recodes

A broker may hand back texts in headers as octets (`Headers.Recoded`). A strategy reads the name of the type and the
text of one header, which are not changed by that, so it reads the same message (`Strategy.deserialize_of_tellsSame`).
-/
namespace BrokerClient

/-! ## Texts as octets -/

namespace HeaderValue

mutual

/-- Any of the texts in a value may have become the octets of the same text. -/
inductive Recoded : HeaderValue → HeaderValue → Prop where
  | kept (v : HeaderValue) : Recoded v v
  | octets (s : String) : Recoded (.string s) (.bytes (Text.utf8 s))
  | array {xs ys : List HeaderValue} (h : ItemsRecoded xs ys) : Recoded (.array xs) (.array ys)
  | table {es fs : List (String × HeaderValue)} (h : EntriesRecoded es fs) : Recoded (.table es) (.table fs)

inductive ItemsRecoded : List HeaderValue → List HeaderValue → Prop where
  | nil : ItemsRecoded [] []
  | cons {x y : HeaderValue} {xs ys : List HeaderValue} (h : Recoded x y) (hs : ItemsRecoded xs ys) :
      ItemsRecoded (x :: xs) (y :: ys)

/-- The keys are the same. -/
inductive EntriesRecoded : List (String × HeaderValue) → List (String × HeaderValue) → Prop where
  | nil : EntriesRecoded [] []
  | cons {x y : HeaderValue} {es fs : List (String × HeaderValue)} (key : String) (h : Recoded x y)
      (hs : EntriesRecoded es fs) : EntriesRecoded ((key, x) :: es) ((key, y) :: fs)

end

theorem Recoded.asText {v v' : HeaderValue} (h : Recoded v v') : v'.asText = v.asText := by
  cases h with
  | kept | array | table => rfl
  | octets s => exact Text.ofUtf8?_utf8 s

theorem EntriesRecoded.text? {es fs : List (String × HeaderValue)} (hr : EntriesRecoded es fs) (key : String) :
    (Entries.get? fs key).bind asText = (Entries.get? es key).bind asText := by
  induction es generalizing fs with
  | nil => cases hr; rfl
  | cons e es ih =>
      cases hr with
      | cons k h hs =>
          have hrest := ih hs
          by_cases hk : k = key
          · simp [Entries.get?, hk, h.asText]
          · simpa [Entries.get?, hk] using hrest

/-- Each text that is found in an entry may become octets. -/
theorem entriesRecoded_map (es : List (String × HeaderValue)) :
    EntriesRecoded es (es.map fun (k, v) => match v.asText with
      | some s => (k, .bytes (Text.utf8 s))
      | none => (k, v)) := by
  induction es with
  | nil => exact .nil
  | cons e es ih =>
      obtain ⟨k, v⟩ := e
      cases v with
      | string s => exact .cons k (.octets s) ih
      | bytes bs =>
          cases hs : Text.ofUtf8? bs with
          | none =>
              simp only [List.map_cons, asText, hs]
              exact .cons k (.kept _) ih
          | some s =>
              simp only [List.map_cons, asText, hs, Text.utf8_of_ofUtf8? hs]
              exact .cons k (.kept _) ih
      | _ => exact .cons k (.kept _) ih

end HeaderValue

/-- The same keys with recoded values. -/
def Headers.Recoded (h h' : Headers) : Prop :=
  HeaderValue.EntriesRecoded h.entries h'.entries

/-- The same record but for recoded headers. -/
def BasicProperties.Recoded (b b' : BasicProperties) : Prop :=
  ∃ h, Option.Rel Headers.Recoded b.headers h ∧ b' = { b with headers := h }

theorem Headers.Recoded.isEmpty {h h' : Headers} (hr : h.Recoded h') : h'.isEmpty = h.isEmpty := by
  unfold Recoded at hr
  unfold SortedMap.isEmpty
  generalize h.entries = es, h'.entries = fs at hr
  cases hr <;> rfl

namespace Properties

/-- What strategies read of properties is the same: the name of the type, and the names in the header for others. -/
structure TellsSame (p q : Properties) : Prop where
  typeName : q.typeName = p.typeName
  names : TypeProperty.ofProperties q = TypeProperty.ofProperties p

variable {p : Properties} {h : Headers} {b : BasicProperties}

theorem recoded_headersToOctets (p : Properties) : p.headers.Recoded p.headersToOctets.headers := by
  have hmap := HeaderValue.entriesRecoded_map p.headers.entries
  unfold Headers.Recoded headersToOctets mapHeaders
  rwa [SortedMap.entries_ofPairs_of_increasing]
  -- The keys are those of the headers.
  apply List.pairwise_map.2
  apply p.headers.increasing.imp
  rintro ⟨k, v⟩ ⟨l, w⟩ hlt
  cases hv : v.asText <;> cases hw : w.asText <;> simpa [hv, hw] using hlt

/-- A broker that hands back all texts as octets recodes the headers of a record. -/
theorem recoded_copyTo_headersToOctets (p : Properties) : (p.copyTo {}).Recoded (p.headersToOctets.copyTo {}) := by
  have hr := p.recoded_headersToOctets
  refine ⟨(p.headersToOctets.copyTo {}).headers, ?_, rfl⟩
  simp only [copyTo, Option.or_none, basicHeaders, hr.isEmpty]
  split
  · exact .none
  · exact .some hr

theorem TellsSame.of_recoded (hr : p.headers.Recoded h) : p.TellsSame (p.mapHeaders fun _ => h) where
  typeName := rfl
  names := by simp only [TypeProperty.ofProperties, mapHeaders, header?, SortedMap.get?, hr.text?]

/-- The headers of a record that was written from properties, as they may come back. -/
theorem recoded_ofBasic (hr : (p.copyTo {}).Recoded b) : p.headers.Recoded (ofBasic b).headers := by
  obtain ⟨h, hh, rfl⟩ := hr
  simp only [ofBasic, copyTo, Option.or_none] at hh ⊢
  rw [← getD_basicHeaders p]
  generalize p.basicHeaders = o at hh ⊢
  cases hh with
  | none => exact .nil
  | some hr => exact hr

/-- A record that was written from properties tells what they told, also with recoded headers. -/
theorem TellsSame.ofBasic (hr : (p.copyTo {}).Recoded b) : p.TellsSame (ofBasic b) := by
  have hheaders := recoded_ofBasic hr
  obtain ⟨h, -, rfl⟩ := hr
  constructor
  · simp only [Properties.ofBasic, copyTo, Option.or_none]
  · simp only [TypeProperty.ofProperties, header?, SortedMap.get?, hheaders.text?]
    simp only [Properties.ofBasic, copyTo, Option.or_none]

end Properties

/-- The packet with these headers in the place of its own. -/
def Packet.withHeaders (p : Packet) (h : Headers) : Packet :=
  { p with properties := p.properties.mapHeaders fun _ => h }

/-! ## Reading -/

/-- A strategy makes the same type and body of the payload, or fails in the same way. -/
theorem Strategy.deserialize_of_tellsSame {p q : Properties} (h : p.TellsSame q) (s : Strategy)
    (payload : Text.Octets) :
    s.deserialize ⟨q, payload⟩ = (s.deserialize ⟨p, payload⟩).map ({ · with properties := q }) := by
  have hbody (codec : BodyCodec) (t : MessageType) :
      (do let body ← decodeBody codec t payload; return ⟨t, body, q⟩) =
        Except.map (fun m : Message => { m with properties := q })
          (do let body ← decodeBody codec t payload; return ⟨t, body, p⟩) := by
    cases decodeBody codec t payload <;> rfl
  cases s with
  | default s =>
      simp only [deserialize, DefaultStrategy.deserialize, h.typeName]
      cases p.typeName with
      | none => rfl
      | some name =>
          cases ht : s.names.typeOf name with
          | error e => simp only [ht, Except.map]
          | ok t => simp only [ht, hbody]
  | versioned s =>
      simp only [deserialize, VersionedStrategy.deserialize, h.names]
      cases (TypeProperty.ofProperties p).resolve s.names with
      | error e => rfl
      | ok t => exact hbody s.codec t

end BrokerClient
