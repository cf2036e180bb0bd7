import BrokerClient.Proofs.HeaderValue.Basic
import BrokerClient.Proofs.Json.Rearranged
import BrokerClient.Proofs.SortedMap
import BrokerClient.Properties.Basic
import BrokerClient.Properties.Json

/-!
# Updates, place by place

Properties are what they hold at each place, a field or a header of one key (`ext_valueAt`). An update says what it
leaves at which places, and what a run of updates leaves at a place is the last of it (`valueAt_updateAll`). So the
updates of different places can be put in any order and be gathered in any way (`updates_by_place`).
-/
namespace BrokerClient.Properties

/-! ## Places -/

/-- Where properties hold a value: a field, or the headers under a key. -/
inductive Place where
  | contentType
  | contentEncoding
  | header (key : String)
  | deliveryMode
  | priority
  | correlationId
  | replyTo
  | expiration
  | messageId
  | timestamp
  | typeName
  | userId
  | appId
  | clusterId

abbrev Place.Value : Place → Type
  | .header _ => HeaderValue
  | .deliveryMode | .priority => UInt8
  | .expiration => Duration
  | .timestamp => Int64
  | _ => String

def valueAt (p : Properties) : (l : Place) → Option l.Value
  | .contentType => p.contentType
  | .contentEncoding => p.contentEncoding
  | .header key => p.header? key
  | .deliveryMode => p.deliveryMode
  | .priority => p.priority
  | .correlationId => p.correlationId
  | .replyTo => p.replyTo
  | .expiration => p.expiration
  | .messageId => p.messageId
  | .timestamp => p.timestamp
  | .typeName => p.typeName
  | .userId => p.userId
  | .appId => p.appId
  | .clusterId => p.clusterId

/-- What an update leaves at a place, one thing after another; nothing if it does not touch the place. -/
def Update.leaves : Update → (l : Place) → List (Option l.Value)
  | .contentType s, .contentType => [some s]
  | .contentEncoding s, .contentEncoding => [some s]
  | .header key value, .header key' => if key = key' then [some value] else []
  | .headers pairs, .header key => (pairs.filter (fun p => p.1 = key)).map (fun p => some p.2)
  | .removeHeader key, .header key' => if key = key' then [none] else []
  | .confirmationId n, .header key => if confirmationHeader = key then [some (.string (toString n.toNat))] else []
  | .deliveryMode n, .deliveryMode => [some n]
  | .priority n, .priority => [some n]
  | .correlationId s, .correlationId => [some s]
  | .replyTo s, .replyTo => [some s]
  | .expiration d, .expiration => [some d]
  | .messageId s, .messageId => [some s]
  | .timestamp t, .timestamp => [some t]
  | .typeName s, .typeName => [some s]
  | .userId s, .userId => [some s]
  | .appId s, .appId => [some s]
  | .clusterId s, .clusterId => [some s]
  | _, _ => []

/-! ## Values at places -/

variable {p q : Properties}

theorem ext_valueAt (h : ∀ l, p.valueAt l = q.valueAt l) : p = q := by
  have hheaders : p.headers = q.headers := SortedMap.ext_get? fun key => h (.header key)
  cases p
  cases q
  simp only [mk.injEq]
  exact ⟨h .contentType, h .contentEncoding, hheaders, h .deliveryMode, h .priority, h .correlationId, h .replyTo,
    h .expiration, h .messageId, h .timestamp, h .typeName, h .userId, h .appId, h .clusterId⟩

/-- One header that is written is all that an update leaves under its key. -/
theorem header?_withHeader_eq (p : Properties) (key key' : String) (v : HeaderValue) :
    (p.withHeader key v).header? key' =
      (if key = key' then [some v] else []).getLast?.getD (p.header? key') := by
  have hinsert : (p.withHeader key v).header? key' = if key' = key then some v else p.header? key' :=
    Entries.get?_insert ..
  rw [hinsert]
  by_cases hk : key = key'
  · simp [hk]
  · simp [hk, Ne.symm hk]

theorem header?_update (p : Properties) (u : Update) (key : String) :
    (p.update u).header? key = (u.leaves (.header key)).getLast?.getD (p.header? key) := by
  cases u with
  | header k v => exact header?_withHeader_eq p k key v
  | confirmationId n => exact header?_withHeader_eq p confirmationHeader key _
  | headers pairs =>
      have hinsert : (p.update (.headers pairs)).header? key =
          ((pairs.filter (fun e => e.1 = key)).map (·.2)).getLast?.or (p.header? key) :=
        SortedMap.get?_insertAll ..
      simp only [hinsert, Update.leaves, List.getLast?_map]
      cases (pairs.filter (fun e => e.1 = key)).getLast? <;> rfl
  | removeHeader k =>
      have herase : (p.update (.removeHeader k)).header? key = if key = k then none else p.header? key :=
        Entries.get?_erase ..
      rw [herase]
      by_cases hk : k = key
      · simp [Update.leaves, hk]
      · simp [Update.leaves, hk, Ne.symm hk]
  | _ => rfl

theorem valueAt_update (p : Properties) (u : Update) (l : Place) :
    (p.update u).valueAt l = (u.leaves l).getLast?.getD (p.valueAt l) := by
  cases l with
  | header key => exact header?_update p u key
  -- a field is left by one kind of update, and by all others as it was
  | _ => cases u <;> rfl

/-! ## Runs of updates -/

/-- All that the updates leave at a place, the first thing first. -/
def leftAt (l : Place) (us : List Update) : List (Option l.Value) :=
  us.flatMap (·.leaves l)

theorem valueAt_updateAll (p : Properties) (us : List Update) (l : Place) :
    (p.updateAll us).valueAt l = (leftAt l us).getLast?.getD (p.valueAt l) := by
  induction us generalizing p with
  | nil => rfl
  | cons u us ih =>
      have hleft : leftAt l (u :: us) = u.leaves l ++ leftAt l us := List.flatMap_cons
      calc (p.updateAll (u :: us)).valueAt l
        _ = ((p.update u).updateAll us).valueAt l := rfl
        _ = (leftAt l us).getLast?.getD ((u.leaves l).getLast?.getD (p.valueAt l)) := by rw [ih, valueAt_update]
        _ = (leftAt l (u :: us)).getLast?.getD (p.valueAt l) := by rw [hleft, List.getLast?_append, Option.getD_or]

theorem updateAll_eq_of_leftAt {us vs : List Update} (h : ∀ l, leftAt l us = leftAt l vs) (p : Properties) :
    p.updateAll us = p.updateAll vs :=
  ext_valueAt fun l => by rw [valueAt_updateAll, valueAt_updateAll, h]

/-- An order for the members of dumps. It need not be that of their names, but it is the same for the same properties:
maps that hash their keys in one way are gone through in one order if they hold the same. -/
structure Arrangement where
  dump : Properties → Json
  rearranged : ∀ p : Properties, p.toJson.Rearranged (dump p)

/-- Each place holds what the last update that touched it left there, or what it held before. Updates that leave the
same at each place, one thing after another, give the same properties, however they are mixed and gathered: with the
same fields, the same texts, in any arrangement, and the same record, and the same by comparison too unless a header is
not a number. -/
theorem updates_by_place (p : Properties) (us : List Update) :
    (∀ l, (p.updateAll us).valueAt l = (leftAt l us).getLast?.getD (p.valueAt l)) ∧
    ∀ vs, (∀ l, leftAt l us = leftAt l vs) →
      p.updateAll us = p.updateAll vs ∧
      (p.updateAll us).presence = (p.updateAll vs).presence ∧
      (p.updateAll us).text = (p.updateAll vs).text ∧
      (∀ target, (p.updateAll us).copyTo target = (p.updateAll vs).copyTo target) ∧
      (p.updateAll us).toJson.text = (p.updateAll vs).toJson.text ∧
      (∀ a : Arrangement, (a.dump (p.updateAll us)).text = (a.dump (p.updateAll vs)).text) ∧
      (HeaderValue.EntriesThroughout HeaderValue.NoNaN (p.updateAll us).headers.entries →
        (p.updateAll us).same (p.updateAll vs) = true) := by
  refine ⟨valueAt_updateAll p us, fun vs h => ?_⟩
  rw [updateAll_eq_of_leftAt h p]
  exact ⟨rfl, rfl, rfl, fun _ => rfl, rfl, fun _ => rfl, same_self⟩

def mixedUpdates : List Update :=
  [.header "retries" (.int 1), .priority 3, .confirmationId 41,
    .headers [("trace", .string "a"), ("retries", .int 2)], .removeHeader "trace"]

def gatheredUpdates : List Update :=
  [.headers [("trace", .string "a"), (confirmationHeader, .string "41"), ("retries", .int 1), ("retries", .int 2)],
    .removeHeader "trace", .priority 3]

/-- Updates of a field and of three headers, mixed and gathered. -/
theorem updates_by_place_gathered :
    updateAll { priority := some 9 } mixedUpdates = updateAll { priority := some 9 } gatheredUpdates ∧
      (updateAll { priority := some 9 } mixedUpdates).same (updateAll { priority := some 9 } gatheredUpdates) = true := by
  have hleft : ∀ l, leftAt l mixedUpdates = leftAt l gatheredUpdates := by
    intro l
    cases l with
    | header key =>
        by_cases hretries : "retries" = key
        · subst hretries
          rfl
        by_cases htrace : "trace" = key
        · subst htrace
          rfl
        by_cases hconfirmation : confirmationHeader = key
        · subst hconfirmation
          rfl
        simp [leftAt, mixedUpdates, gatheredUpdates, Update.leaves, hretries, htrace, hconfirmation]
    | _ => rfl
  obtain ⟨heq, -, -, -, -, -, hsame⟩ := (updates_by_place { priority := some 9 } mixedUpdates).2 gatheredUpdates hleft
  exact ⟨heq, hsame ⟨trivial, trivial, trivial⟩⟩

end BrokerClient.Properties
