import BrokerClient.Properties

/-!
# Basic properties

Properties in the form in which a channel exchanges them with the broker: the expiration is a
decimal text of milliseconds, and there may be a header table without entries.

`Properties.copyTo` writes the present fields over a record, `Properties.ofBasic` reads a record. An
expiration that is no number of 64 bits is dropped by the reading.
-/
namespace BrokerClient

structure BasicProperties where
  contentType : Option String := none
  contentEncoding : Option String := none
  headers : Option Headers := none
  deliveryMode : Option UInt8 := none
  priority : Option UInt8 := none
  correlationId : Option String := none
  replyTo : Option String := none
  expiration : Option String := none
  messageId : Option String := none
  timestamp : Option Int64 := none
  typeName : Option String := none
  userId : Option String := none
  appId : Option String := none
  clusterId : Option String := none

namespace Properties

/-- The headers of a record: none if there are no entries. -/
def basicHeaders (p : Properties) : Option Headers :=
  if p.headers.isEmpty then none else some p.headers

def basicExpiration (p : Properties) : Option String :=
  p.expiration.map (fun d => toString d.milliseconds)

/-- Writes every present field over that of the target and leaves the others alone. -/
def copyTo (p : Properties) (target : BasicProperties) : BasicProperties where
  contentType := p.contentType.or target.contentType
  contentEncoding := p.contentEncoding.or target.contentEncoding
  headers := p.basicHeaders.or target.headers
  deliveryMode := p.deliveryMode.or target.deliveryMode
  priority := p.priority.or target.priority
  correlationId := p.correlationId.or target.correlationId
  replyTo := p.replyTo.or target.replyTo
  expiration := p.basicExpiration.or target.expiration
  messageId := p.messageId.or target.messageId
  timestamp := p.timestamp.or target.timestamp
  typeName := p.typeName.or target.typeName
  userId := p.userId.or target.userId
  appId := p.appId.or target.appId
  clusterId := p.clusterId.or target.clusterId

def ofBasic (b : BasicProperties) : Properties where
  contentType := b.contentType
  contentEncoding := b.contentEncoding
  headers := b.headers.getD .empty
  deliveryMode := b.deliveryMode
  priority := b.priority
  correlationId := b.correlationId
  replyTo := b.replyTo
  expiration := (b.expiration.bind Text.readWord?).map Duration.ofMilliseconds
  messageId := b.messageId
  timestamp := b.timestamp
  typeName := b.typeName
  userId := b.userId
  appId := b.appId
  clusterId := b.clusterId

end Properties

end BrokerClient
