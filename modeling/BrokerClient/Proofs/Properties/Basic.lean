import BrokerClient.Properties.Basic
import BrokerClient.Proofs.Text.Decimal

/-!
# Properties and their basic form

Properties that are written into an empty record and read again are the same but for the expiration, a record that is
read and written comes back in its plain form, and writing over a record changes the present fields only
(`faithful_exchange`).
-/
namespace BrokerClient

theorem SortedMap.eq_empty_of_isEmpty {α : Type} {m : SortedMap α} (h : m.isEmpty = true) : m = .empty := by
  obtain ⟨es, hes⟩ := m
  obtain rfl : es = [] := List.isEmpty_iff.1 h
  rfl

theorem Duration.milliseconds_ofMilliseconds (ms : UInt64) : (ofMilliseconds ms).milliseconds = ms.toNat :=
  Nat.mul_div_cancel ms.toNat (by decide)

/-- The record without an empty header table, and with an expiration that is a number of 64 bits in plain decimal
digits. -/
def BasicProperties.plain (b : BasicProperties) : BasicProperties :=
  { b with
    headers := b.headers.filter (fun h => !h.isEmpty)
    expiration := (b.expiration.bind Text.readWord?).map (fun n => toString n.toNat) }

namespace Properties

/-! ## Writing over a record -/

/-- A field that is present takes the place of the old one. -/
def Overlays {β : Type} (new old result : Option β) : Prop :=
  (new = none → result = old) ∧ ∀ v, new = some v → result = some v

theorem overlays_or {β : Type} (new old : Option β) : Overlays new old (new.or old) := by
  constructor
  · rintro rfl; exact Option.none_or
  · rintro v rfl; exact Option.some_or

/-- The record `r` has the fields that are present in `p`, the headers as a whole, and otherwise those of `t`. -/
structure WrittenOver (p : Properties) (t r : BasicProperties) : Prop where
  contentType : Overlays p.contentType t.contentType r.contentType
  contentEncoding : Overlays p.contentEncoding t.contentEncoding r.contentEncoding
  noHeaders : p.headers.entries = [] → r.headers = t.headers
  headers : p.headers.entries ≠ [] → r.headers = some p.headers
  deliveryMode : Overlays p.deliveryMode t.deliveryMode r.deliveryMode
  priority : Overlays p.priority t.priority r.priority
  correlationId : Overlays p.correlationId t.correlationId r.correlationId
  replyTo : Overlays p.replyTo t.replyTo r.replyTo
  expiration : Overlays (p.expiration.map fun d => toString d.milliseconds) t.expiration r.expiration
  messageId : Overlays p.messageId t.messageId r.messageId
  timestamp : Overlays p.timestamp t.timestamp r.timestamp
  typeName : Overlays p.typeName t.typeName r.typeName
  userId : Overlays p.userId t.userId r.userId
  appId : Overlays p.appId t.appId r.appId
  clusterId : Overlays p.clusterId t.clusterId r.clusterId

theorem writtenOver_copyTo (p : Properties) (t : BasicProperties) : p.WrittenOver t (p.copyTo t) where
  contentType := overlays_or ..
  contentEncoding := overlays_or ..
  noHeaders h := by
    have hempty : p.headers.isEmpty = true := List.isEmpty_iff.2 h
    simp only [copyTo, basicHeaders, hempty, if_true, Option.none_or]
  headers h := by
    have hempty : p.headers.isEmpty = false := by simpa [SortedMap.isEmpty] using h
    simp only [copyTo, basicHeaders, hempty, Bool.false_eq_true, if_false, Option.some_or]
  deliveryMode := overlays_or ..
  priority := overlays_or ..
  correlationId := overlays_or ..
  replyTo := overlays_or ..
  expiration := overlays_or ..
  messageId := overlays_or ..
  timestamp := overlays_or ..
  typeName := overlays_or ..
  userId := overlays_or ..
  appId := overlays_or ..
  clusterId := overlays_or ..

theorem copyTo_copyTo (p : Properties) (t : BasicProperties) : p.copyTo (p.copyTo t) = p.copyTo t := by
  simp only [copyTo, ← Option.or_assoc, Option.or_self]

/-! ## There and back -/

theorem getD_basicHeaders (p : Properties) : p.basicHeaders.getD .empty = p.headers := by
  unfold basicHeaders
  split
  · rename_i h
    exact (SortedMap.eq_empty_of_isEmpty h).symm
  · rfl

theorem basicHeaders_ofBasic (b : BasicProperties) :
    (ofBasic b).basicHeaders = b.headers.filter (fun h => !h.isEmpty) := by
  cases hh : b.headers with
  | none => simp only [basicHeaders, ofBasic, hh]; rfl
  | some h => cases he : h.isEmpty <;> simp [basicHeaders, ofBasic, hh, he, Option.filter]

theorem basicExpiration_ofBasic (b : BasicProperties) :
    (ofBasic b).basicExpiration = (b.expiration.bind Text.readWord?).map (fun n => toString n.toNat) := by
  simp only [basicExpiration, ofBasic, Option.map_map, Function.comp_def, Duration.milliseconds_ofMilliseconds]

theorem copyTo_ofBasic (b : BasicProperties) : (ofBasic b).copyTo {} = b.plain := by
  simp only [copyTo, Option.or_none, basicHeaders_ofBasic, basicExpiration_ofBasic]
  rfl

/-- A record is read as its plain form is. -/
theorem ofBasic_plain (b : BasicProperties) : ofBasic b.plain = ofBasic b := by
  have hheaders : (b.headers.filter (fun h => !h.isEmpty)).getD .empty = b.headers.getD .empty := by
    rw [← basicHeaders_ofBasic, getD_basicHeaders]
    rfl
  have hexpiration : ((b.expiration.bind Text.readWord?).map fun n => toString n.toNat).bind Text.readWord? =
      b.expiration.bind Text.readWord? := by
    cases b.expiration.bind Text.readWord? with
    | none => rfl
    | some n => exact Text.readWord?_toString n
  simp only [ofBasic, BasicProperties.plain, hheaders, hexpiration]

/-- Between properties and records nothing is lost or invented. Written into an empty record, properties are read again
but for the expiration; a record that is read is written in its plain form, which is read as the record is; and what
is written over a record is just the present fields, be it once or twice. -/
theorem faithful_exchange :
    (∀ p : Properties, { ofBasic (p.copyTo {}) with expiration := p.expiration } = p) ∧
    (∀ b : BasicProperties, (ofBasic b).copyTo {} = b.plain ∧ ofBasic ((ofBasic b).copyTo {}) = ofBasic b) ∧
    ∀ (p : Properties) (t : BasicProperties), p.WrittenOver t (p.copyTo t) ∧ p.copyTo (p.copyTo t) = p.copyTo t := by
  refine ⟨fun p => ?_, fun b => ⟨copyTo_ofBasic b, ?_⟩, fun p t => ⟨writtenOver_copyTo p t, copyTo_copyTo p t⟩⟩
  · simp only [ofBasic, copyTo, Option.or_none, getD_basicHeaders]
  · rw [copyTo_ofBasic, ofBasic_plain]

end Properties

end BrokerClient
