import BrokerClient.HeaderValue.Json
import BrokerClient.Properties

/-!
# Properties as JSON

The dump of properties: an object with all fields, null for an absent one, and the headers as an
object of header values. Reading also takes an array of the fields in order, lets fields other than
the headers be missing, and passes over members with other names whatever they hold.
-/
namespace BrokerClient

namespace Duration

def toJson (d : Duration) : Json :=
  .ofMembers [("nanos", .ofNat d.subsecondNanos), ("secs", .ofNat d.seconds)]

def ofJson? (j : Json) : Option Duration :=
  match j.fields? false ["secs", "nanos"] with
  | some [some secs, some nanos] =>
    match secs.natural? UInt64.size, nanos.natural? UInt32.size with
    | some s, some n => ofParts? (UInt64.ofNat s) (UInt32.ofNat n)
    | _, _ => none
  | _ => none

end Duration

namespace Properties

/-- The fields by name, in the order in which an array has them. -/
def fieldNames : List String :=
  ["content_type", "content_encoding", "headers", "delivery_mode", "priority", "correlation_id",
    "reply_to", "expiration", "message_id", "timestamp", "type_name", "user_id", "app_id",
    "cluster_id"]

def optionToJson {α : Type} (write : α → Json) : Option α → Json
  | none => .null
  | some a => write a

/-- The names of the fields increase. -/
def toJson (p : Properties) : Json :=
  let text := optionToJson Json.ofText
  .ofMembers
    [("app_id", text p.appId),
      ("cluster_id", text p.clusterId),
      ("content_encoding", text p.contentEncoding),
      ("content_type", text p.contentType),
      ("correlation_id", text p.correlationId),
      ("delivery_mode", optionToJson (fun n => .ofNat n.toNat) p.deliveryMode),
      ("expiration", optionToJson Duration.toJson p.expiration),
      ("headers", .object (HeaderValue.entriesToJson p.headers.entries)),
      ("message_id", text p.messageId),
      ("priority", optionToJson (fun n => .ofNat n.toNat) p.priority),
      ("reply_to", text p.replyTo),
      ("timestamp", optionToJson (fun t => .ofInt t.toInt) p.timestamp),
      ("type_name", text p.typeName),
      ("user_id", text p.userId)]

def headersOfJson? : Json → Option Headers
  | .object ms => (HeaderValue.entriesOfJson? ms).map SortedMap.ofPairs
  | _ => none

/-- A field that may be missing or null. -/
def optionalField? {α : Type} (read : Json → Option α) : Option Json → Option (Option α)
  | none => some none
  | some j => Json.optional? read j

def octetOfJson? (j : Json) : Option UInt8 :=
  (j.natural? 256).map UInt8.ofNat

def ofFields? : List (Option Json) → Option Properties
  | [contentType, contentEncoding, some headers, deliveryMode, priority, correlationId, replyTo,
      expiration, messageId, timestamp, typeName, userId, appId, clusterId] => do
    return {
      contentType := ← optionalField? Json.text? contentType
      contentEncoding := ← optionalField? Json.text? contentEncoding
      headers := ← headersOfJson? headers
      deliveryMode := ← optionalField? octetOfJson? deliveryMode
      priority := ← optionalField? octetOfJson? priority
      correlationId := ← optionalField? Json.text? correlationId
      replyTo := ← optionalField? Json.text? replyTo
      expiration := ← optionalField? Duration.ofJson? expiration
      messageId := ← optionalField? Json.text? messageId
      timestamp := ← optionalField? Json.int64? timestamp
      typeName := ← optionalField? Json.text? typeName
      userId := ← optionalField? Json.text? userId
      appId := ← optionalField? Json.text? appId
      clusterId := ← optionalField? Json.text? clusterId }
  | _ => none

/-- The values of fields nest so deep that the whole record nests within the limit. -/
def ofJson? (j : Json) : Option Properties :=
  match j.fields? true fieldNames with
  | some fs =>
    if fs.all (fun f => f.all (Json.nestsWithin (Json.depthLimit - 1))) then ofFields? fs else none
  | none => none

end Properties

end BrokerClient
