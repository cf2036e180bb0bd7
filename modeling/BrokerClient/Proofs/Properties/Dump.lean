import BrokerClient.Proofs.Duration
import BrokerClient.Proofs.HeaderValue.Json
import BrokerClient.Properties.Json

/-!
# Dumps, read back

The dump of properties is a JSON text (`legible_toJson`). Properties whose headers have no floats are read back from
it, whatever order their fields and headers are written in, if it nests no deeper than a reader allows
(`dump_read_back`).
-/
namespace BrokerClient

open Json (Rearranged)

variable {j : Json}

/-! ## Durations -/

theorem Duration.legible_toJson (d : Duration) : d.toJson.Legible :=
  Json.legible_ofMembers (by simp [Json.legible_ofNat])

theorem Duration.ofJson?_of_fields? {d : Duration} {secs nanos : Json}
    (hj : j.fields? false ["secs", "nanos"] = some [some secs, some nanos])
    (hsecs : secs.natural? UInt64.size = some d.seconds) (hnanos : nanos.natural? UInt32.size = some d.subsecondNanos) :
    ofJson? j = some d := by
  simp only [ofJson?, hj, hsecs, hnanos, ofParts?_parts]

theorem Duration.ofJson?_of_rearranged {d : Duration} (h : d.toJson.Rearranged j) : ofJson? j = some d := by
  rw [toJson] at h
  obtain ⟨found, hread, hfound, -⟩ :=
    Json.fields?_of_rearranged false ["secs", "nanos"] h (by simp) (by simp) (by simp)
  have hsecs : found "secs" = .ofNat d.seconds := (hfound ("secs", .ofNat d.seconds) (by simp)).eq_nat
  have hnanos : found "nanos" = .ofNat d.subsecondNanos :=
    (hfound ("nanos", .ofNat d.subsecondNanos) (by simp)).eq_nat
  have hn : d.subsecondNanos < UInt32.size := Nat.lt_trans d.subsecondNanos_lt (by decide)
  apply ofJson?_of_fields? hread
  · rw [hsecs]
    exact Json.natural?_ofNat d.seconds_lt d.seconds_lt
  · rw [hnanos]
    exact Json.natural?_ofNat (Nat.lt_trans hn (by decide)) hn

namespace Properties

variable {p : Properties}

/-! ## Writing -/

theorem legible_optionToJson {α : Type} {write : α → Json} (h : ∀ a, (write a).Legible) (o : Option α) :
    (optionToJson write o).Legible := by
  cases o with
  | none => trivial
  | some a => exact h a

theorem legible_toJson (p : Properties) : p.toJson.Legible := by
  have htext := legible_optionToJson Json.legible_ofText
  have hoctet := legible_optionToJson fun n : UInt8 => Json.legible_ofNat n.toNat
  have htimestamp := legible_optionToJson fun t : Int64 => Json.legible_ofInt t.toInt
  have hexpiration := legible_optionToJson Duration.legible_toJson
  have hheaders : (Json.object (HeaderValue.entriesToJson p.headers.entries)).Legible :=
    HeaderValue.legible_entriesToJson p.headers.entries
  exact Json.legible_ofMembers (by simp [htext, hoctet, htimestamp, hexpiration, hheaders])

/-! ## Fields -/

/-- A field is read if its value is, which is not written as null. -/
theorem optionalField?_of_rearranged {α : Type} {write : α → Json} {read : Json → Option α}
    (hread : ∀ a j, (write a).Rearranged j → read j = some a) (hnull : read .null = none) {o : Option α}
    (h : (optionToJson write o).Rearranged j) : optionalField? read (some j) = some o := by
  cases o with
  | none =>
      cases h
      rfl
  | some a =>
      have ha := hread a j h
      -- a value that were written as null would be taken for an absent one
      cases j with
      | null =>
          rw [hnull] at ha
          cases ha
      | _ => simp only [optionalField?, Json.optional?, ha, Option.map_some]

theorem textField?_of_rearranged {o : Option String} (h : (optionToJson Json.ofText o).Rearranged j) :
    optionalField? Json.text? (some j) = some o :=
  optionalField?_of_rearranged (fun s _ h => by rw [h.eq_text]; exact Json.textOf?_unitsOf s) rfl h

theorem octetField?_of_rearranged {o : Option UInt8} (h : (optionToJson (fun n => .ofNat n.toNat) o).Rearranged j) :
    optionalField? octetOfJson? (some j) = some o := by
  refine optionalField?_of_rearranged (fun n j h => ?_) rfl h
  have hn : n.toNat < 256 := n.toNat_lt
  rw [h.eq_nat, octetOfJson?, Json.natural?_ofNat (Nat.lt_trans hn (by decide)) hn, Option.map_some, UInt8.ofNat_toNat]

theorem timestampField?_of_rearranged {o : Option Int64} (h : (optionToJson (fun t => .ofInt t.toInt) o).Rearranged j) :
    optionalField? Json.int64? (some j) = some o :=
  optionalField?_of_rearranged (fun t _ h => by rw [h.eq_int]; exact Json.int64?_ofInt t) rfl h

theorem expirationField?_of_rearranged {o : Option Duration} (h : (optionToJson Duration.toJson o).Rearranged j) :
    optionalField? Duration.ofJson? (some j) = some o :=
  optionalField?_of_rearranged (fun _ _ h => Duration.ofJson?_of_rearranged h) rfl h

theorem headersOfJson?_of_rearranged (ho : HeaderValue.EntriesOrdered p.headers.entries)
    (hf : HeaderValue.EntriesThroughout HeaderValue.NoFloat p.headers.entries)
    (h : (Json.object (HeaderValue.entriesToJson p.headers.entries)).Rearranged j) :
    headersOfJson? j = some p.headers := by
  obtain ⟨ns, ns', rfl, hs, hp⟩ := h.exists_members
  obtain ⟨es, hes, hread⟩ :=
    HeaderValue.entriesOfJson?_of_perm hp (HeaderValue.entriesOfJson?_of_rearranged p.headers.entries ho hf hs)
  rw [headersOfJson?, hread, Option.map_some, SortedMap.ofPairs_of_perm hes]

/-! ## Dumps -/

theorem nodup_fieldNames : fieldNames.Nodup := by
  decide

/-- The dump has all fields, in the order of their names. -/
theorem fieldNames_perm : fieldNames.Perm
    ["app_id", "cluster_id", "content_encoding", "content_type", "correlation_id", "delivery_mode", "expiration",
      "headers", "message_id", "priority", "reply_to", "timestamp", "type_name", "user_id"] := by
  decide

theorem ofJson?_of_rearranged (ho : HeaderValue.EntriesOrdered p.headers.entries)
    (hf : HeaderValue.EntriesThroughout HeaderValue.NoFloat p.headers.entries) (h : p.toJson.Rearranged j)
    (hd : j.nestsWithin Json.depthLimit = true) : ofJson? j = some p := by
  rw [toJson] at h
  obtain ⟨found, hread, hfound, hnests⟩ :=
    Json.fields?_of_rearranged true fieldNames h (fieldNames_perm.nodup_iff.1 nodup_fieldNames) fieldNames_perm.subset
      (.inl rfl)
  have hsmall : (fieldNames.map fun name => some (found name)).all
      (fun f => f.all (Json.nestsWithin (Json.depthLimit - 1))) = true := by
    simpa using hnests (Json.depthLimit - 1) hd
  simp only [ofJson?, hread, hsmall, if_true]
  simp only [List.forall_mem_cons] at hfound
  obtain ⟨happId, hclusterId, hcontentEncoding, hcontentType, hcorrelationId, hdeliveryMode, hexpiration, hheaders,
    hmessageId, hpriority, hreplyTo, htimestamp, htypeName, huserId, -⟩ := hfound
  simp only [fieldNames, List.map_cons, List.map_nil, ofFields?, textField?_of_rearranged happId,
    textField?_of_rearranged hclusterId, textField?_of_rearranged hcontentEncoding,
    textField?_of_rearranged hcontentType, textField?_of_rearranged hcorrelationId,
    textField?_of_rearranged hmessageId, textField?_of_rearranged hreplyTo,
    textField?_of_rearranged htypeName, textField?_of_rearranged huserId,
    octetField?_of_rearranged hdeliveryMode, octetField?_of_rearranged hpriority,
    timestampField?_of_rearranged htimestamp, expirationField?_of_rearranged hexpiration,
    headersOfJson?_of_rearranged ho hf hheaders, Option.bind_eq_bind, Option.bind_some]
  rfl

/-- Properties whose headers have no floats are read back from the text of their dump, and are the same as the ones
that were dumped. The members of its objects may come in any order, as a map that is hashed has none. -/
theorem dump_read_back (ho : HeaderValue.EntriesOrdered p.headers.entries)
    (hf : HeaderValue.EntriesThroughout HeaderValue.NoFloat p.headers.entries)
    (hd : p.toJson.nestsWithin Json.depthLimit = true) :
    ∀ j, p.toJson.Rearranged j → (Json.ofString? j.text).bind ofJson? = some p ∧ p.same p = true := by
  intro j h
  have htext : Json.ofString? j.text = some j := Json.ofString?_text (h.legible p.legible_toJson)
  have hread : ofJson? j = some p := ofJson?_of_rearranged ho hf h (h.nestsWithin hd)
  have hnan := HeaderValue.EntriesThroughout.imp (fun _ => HeaderValue.NoFloat.noNaN) p.headers.entries hf
  exact ⟨by rw [htext, Option.bind_some, hread], same_self hnan⟩

/-- Its header texts are no ASCII, and its numbers are at the ends of their ranges. -/
def farProperties : Properties where
  contentType := some "text/plain"
  headers := ⟨[("größe", .array [.void, .bytes [0, 255], .string "😀"]),
    ("trace", .table [("at", .int (-1)), ("on", .bool true)])], by decide⟩
  priority := some 255
  expiration := some .max
  timestamp := some Int64.minValue

/-- The dump with its fields from the last to the first. -/
def farDump : Json :=
  match farProperties.toJson with
  | .object ms => .object ms.reverse
  | j => j

theorem dump_read_back_far :
    (Json.ofString? farDump.text).bind ofJson? = some farProperties ∧ farProperties.same farProperties = true := by
  have ho : HeaderValue.EntriesOrdered farProperties.headers.entries := by
    simp [farProperties, HeaderValue.EntriesOrdered, HeaderValue.Ordered, HeaderValue.ItemsOrdered]
    decide
  have hf : HeaderValue.EntriesThroughout HeaderValue.NoFloat farProperties.headers.entries := by
    simp [farProperties, HeaderValue.EntriesThroughout, HeaderValue.Throughout, HeaderValue.ItemsThroughout,
      HeaderValue.NoFloat]
  have h : farProperties.toJson.Rearranged farDump :=
    .object (Json.MembersRearranged.refl _) (List.reverse_perm _).symm
  exact dump_read_back ho hf (by decide) farDump h

end Properties

end BrokerClient
