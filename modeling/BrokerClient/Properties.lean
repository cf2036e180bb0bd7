import BrokerClient.Duration
import BrokerClient.HeaderValue
import BrokerClient.Text.Decimal

/-!
# Message properties

What travels beside the body of a message: thirteen fields that are each present or absent, and the
headers, which count as present when there is one. An update sets one field or some headers and
leaves the rest as it was.
-/
namespace BrokerClient

structure Properties where
  contentType : Option String := none
  contentEncoding : Option String := none
  headers : Headers := .empty
  deliveryMode : Option UInt8 := none
  priority : Option UInt8 := none
  correlationId : Option String := none
  replyTo : Option String := none
  expiration : Option Duration := none
  messageId : Option String := none
  timestamp : Option Int64 := none
  typeName : Option String := none
  userId : Option String := none
  appId : Option String := none
  clusterId : Option String := none

namespace Properties

instance : Inhabited Properties :=
  ⟨{}⟩

/-- The header with the sequence number of a published message that waits for its confirmation. -/
def confirmationHeader : String :=
  "Burrow.Confirmation.Id"

/-! ## Updates -/

inductive Update where
  | contentType (s : String)
  | contentEncoding (s : String)
  | header (key : String) (value : HeaderValue)
  | headers (pairs : List (String × HeaderValue))
  | removeHeader (key : String)
  | deliveryMode (n : UInt8)
  | priority (n : UInt8)
  | correlationId (s : String)
  | replyTo (s : String)
  | expiration (d : Duration)
  | messageId (s : String)
  | timestamp (t : Int64)
  | typeName (s : String)
  | userId (s : String)
  | appId (s : String)
  | clusterId (s : String)
  | confirmationId (n : UInt64)

def withHeader (p : Properties) (key : String) (value : HeaderValue) : Properties :=
  { p with headers := p.headers.insert key value }

/-- The headers that the function makes of the old ones. -/
def mapHeaders (p : Properties) (f : Headers → Headers) : Properties :=
  { p with headers := f p.headers }

def update (p : Properties) : Update → Properties
  | .contentType s => { p with contentType := some s }
  | .contentEncoding s => { p with contentEncoding := some s }
  | .header key value => p.withHeader key value
  | .headers pairs => { p with headers := p.headers.insertAll pairs }
  | .removeHeader key => { p with headers := p.headers.erase key }
  | .deliveryMode n => { p with deliveryMode := some n }
  | .priority n => { p with priority := some n }
  | .correlationId s => { p with correlationId := some s }
  | .replyTo s => { p with replyTo := some s }
  | .expiration d => { p with expiration := some d }
  | .messageId s => { p with messageId := some s }
  | .timestamp t => { p with timestamp := some t }
  | .typeName s => { p with typeName := some s }
  | .userId s => { p with userId := some s }
  | .appId s => { p with appId := some s }
  | .clusterId s => { p with clusterId := some s }
  | .confirmationId n => p.withHeader confirmationHeader (.string (toString n.toNat))

/-- The properties after all updates, the first one first. -/
def updateAll (p : Properties) (us : List Update) : Properties :=
  us.foldl update p

/-! ## Questions -/

def header? (p : Properties) (key : String) : Option HeaderValue :=
  p.headers.get? key

def confirmationId (p : Properties) : Option UInt64 :=
  ((p.header? confirmationHeader).bind HeaderValue.asText).bind Text.readWord?

/-- Which of the fourteen fields are present. -/
def presence (p : Properties) : List Bool :=
  [p.contentType.isSome, p.contentEncoding.isSome, !p.headers.isEmpty, p.deliveryMode.isSome,
    p.priority.isSome, p.correlationId.isSome, p.replyTo.isSome, p.expiration.isSome,
    p.messageId.isSome, p.timestamp.isSome, p.typeName.isSome, p.userId.isSome, p.appId.isSome,
    p.clusterId.isSome]

/-- All fields are equal and all headers the same. -/
def same (p q : Properties) : Bool :=
  p.contentType == q.contentType && p.contentEncoding == q.contentEncoding &&
    HeaderValue.entriesSame p.headers.entries q.headers.entries &&
    p.deliveryMode == q.deliveryMode && p.priority == q.priority &&
    p.correlationId == q.correlationId && p.replyTo == q.replyTo &&
    p.expiration == q.expiration && p.messageId == q.messageId && p.timestamp == q.timestamp &&
    p.typeName == q.typeName && p.userId == q.userId && p.appId == q.appId &&
    p.clusterId == q.clusterId

/-! ## Text -/

def fieldText (name : String) (value : Option String) : String :=
  name ++ "=" ++ value.getD "NULL"

def headersText (h : Headers) : Option String :=
  if h.isEmpty then none else some (HeaderValue.bracketed (HeaderValue.entryTexts h.entries))

/-- Every field with its value, in the order of the wire format. -/
def text (p : Properties) : String :=
  String.intercalate ", "
    [fieldText "ContentType" p.contentType,
      fieldText "ContentEncoding" p.contentEncoding,
      fieldText "Headers" (headersText p.headers),
      fieldText "DeliveryMode" (p.deliveryMode.map (fun n => toString n.toNat)),
      fieldText "Priority" (p.priority.map (fun n => toString n.toNat)),
      fieldText "CorrelationId" p.correlationId,
      fieldText "ReplyTo" p.replyTo,
      fieldText "Expiration" (p.expiration.map (fun d => toString d.milliseconds ++ "ms")),
      fieldText "MessageId" p.messageId,
      fieldText "Timestamp" (p.timestamp.map (fun t => toString t.toInt)),
      fieldText "Type" p.typeName,
      fieldText "UserId" p.userId,
      fieldText "AppId" p.appId,
      fieldText "ClusterId" p.clusterId]

end Properties

end BrokerClient
