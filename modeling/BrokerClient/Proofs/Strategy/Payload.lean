import BrokerClient.Strategy.Payload

/-!
# Payloads and correlation identifiers

A body is read back from its payload by every reader that knows what the codec makes of it, and is missing just where
the payload is empty (`exists_payload`). A published message keeps an identifier that it has (`ensureCorrelationId_eq`).
-/
namespace BrokerClient.Strategy

/-! ## Payloads -/

theorem decodeBody_of_decode {codec : BodyCodec} {t : MessageType} {payload : Text.Octets} {b : Body}
    (hp : payload ≠ []) (hd : codec.decode t payload = .ok b) : decodeBody codec t payload = .ok (some b) := by
  simp only [decodeBody, List.isEmpty_eq_false_iff.2 hp, Bool.false_eq_true, if_false, hd]

theorem decodeBody_of_undecodable {codec : BodyCodec} {t : MessageType} {payload : Text.Octets} {reason : String}
    (hp : payload ≠ []) (hd : codec.decode t payload = .error reason) :
    decodeBody codec t payload = .error (.decode t reason) := by
  simp only [decodeBody, List.isEmpty_eq_false_iff.2 hp, Bool.false_eq_true, if_false, hd]

theorem exists_payload {writer reader : BodyCodec} {m : Message} {P : MessageType → Prop}
    (h : ∀ b, m.body = some b → ∃ payload, writer.encode m.type b = .ok payload ∧ payload ≠ [] ∧
      ∀ t, P t → reader.decode t payload = .ok b) :
    ∃ payload, encodeBody writer m = .ok payload ∧ (m.body = none ↔ payload = []) ∧
      ∀ t, P t → decodeBody reader t payload = .ok m.body := by
  cases hb : m.body with
  | none => exact ⟨[], by simp only [encodeBody, hb], by simp, fun _ _ => rfl⟩
  | some b =>
      obtain ⟨payload, he, hne, hd⟩ := h b hb
      exact ⟨payload, by simp only [encodeBody, hb, he], by simp [hne], fun t ht => decodeBody_of_decode hne (hd t ht)⟩

/-! ## Correlation identifiers -/

variable {p : Properties} {id : String}

theorem ensureCorrelationId_of_some (h : p.correlationId = some id) (hid : id ≠ "") (fresh : String) :
    ensureCorrelationId fresh p = p := by
  have hempty : id.isEmpty = false := by simpa using hid
  simp only [ensureCorrelationId, h, hempty, Bool.false_eq_true, if_false]

/-- The identifier that is there is kept, unless it is missing or empty. -/
theorem ensureCorrelationId_eq (fresh : String) (p : Properties) : ensureCorrelationId fresh p =
    { p with correlationId := some ((p.correlationId.filter (fun id => id ≠ "")).getD fresh) } := by
  cases h : p.correlationId with
  | none => simp only [ensureCorrelationId, h]; rfl
  | some id =>
      by_cases hid : id = ""
      · subst hid
        simp only [ensureCorrelationId, h]
        rfl
      · have hkept : (some id).filter (fun id => id ≠ "") = some id := by simp [Option.filter, hid]
        rw [ensureCorrelationId_of_some h hid, hkept, Option.getD_some, ← h]

/-- No identifier is empty that is kept or taken from those that are not. -/
theorem getD_filter_ne_empty {o : Option String} {fresh : String} (h : fresh ≠ "") :
    (o.filter (fun id => id ≠ "")).getD fresh ≠ "" := by
  cases o with
  | none => exact h
  | some id => by_cases hid : id = "" <;> simp [Option.filter, hid, h]

end BrokerClient.Strategy
