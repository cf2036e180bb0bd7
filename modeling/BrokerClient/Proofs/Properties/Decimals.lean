import BrokerClient.Proofs.Duration
import BrokerClient.Proofs.Strategy.Recoding
import BrokerClient.Proofs.Text.Decimal

/-!
# Decimal fields

The sequence number of a message is the number that the text of a header writes, and the expiration of a record is the
number of milliseconds that its text writes. Both are read by the same grammar, `Text.WritesWord`, and a number that was
written is read back (`decimal_fields`).
-/
namespace BrokerClient

/-- The text that a value holds: a string, or the octets of one. -/
inductive HeaderValue.Holds : HeaderValue → String → Prop where
  | string (s : String) : Holds (.string s) s
  | octets (s : String) : Holds (.bytes (Text.utf8 s)) s

theorem HeaderValue.asText_eq_some_iff {v : HeaderValue} {s : String} : v.asText = some s ↔ v.Holds s := by
  constructor
  · intro h
    cases v with
    | string t => cases h; exact .string s
    | bytes bs =>
        rw [← Text.utf8_of_ofUtf8? h]
        exact .octets s
    | _ => cases h
  · intro h
    cases h with
    | string => rfl
    | octets => exact Text.ofUtf8?_utf8 s

namespace Properties

variable {p : Properties} {b : BasicProperties} {h : Headers} {n : UInt64} {d : Duration}

/-! ## Reading -/

theorem confirmationId_eq_some_iff : p.confirmationId = some n ↔
    ∃ v s, p.header? confirmationHeader = some v ∧ v.Holds s ∧ Text.WritesWord s n := by
  simp only [confirmationId, Option.bind_eq_some_iff, HeaderValue.asText_eq_some_iff, Text.readWord?_eq_some_iff]
  constructor
  · rintro ⟨s, ⟨v, hv, hs⟩, hn⟩
    exact ⟨v, s, hv, hs, hn⟩
  · rintro ⟨v, s, hv, hs, hn⟩
    exact ⟨s, ⟨v, hv, hs⟩, hn⟩

theorem expiration_ofBasic_eq_some_iff : (ofBasic b).expiration = some d ↔
    ∃ s n, b.expiration = some s ∧ Text.WritesWord s n ∧ d = .ofMilliseconds n := by
  simp only [ofBasic, Option.map_eq_some_iff, Option.bind_eq_some_iff, Text.readWord?_eq_some_iff]
  constructor
  · rintro ⟨n, ⟨s, hs, hn⟩, rfl⟩
    exact ⟨s, n, hs, hn, rfl⟩
  · rintro ⟨s, n, hs, hn, rfl⟩
    exact ⟨n, ⟨s, hs, hn⟩, rfl⟩

/-! ## Writing -/

theorem confirmationId_update (p : Properties) (n : UInt64) :
    (p.update (.confirmationId n)).confirmationId = some n := by
  have hheader : (p.update (.confirmationId n)).header? confirmationHeader = some (.string (toString n.toNat)) :=
    (Entries.get?_insert ..).trans (if_pos rfl)
  rw [confirmationId, hheader, Option.bind_some, HeaderValue.asText, Option.bind_some, Text.readWord?_toString]

/-- The sequence number is read of a text, which recoded headers have kept. -/
theorem confirmationId_of_recoded {q : Properties} (hr : p.headers.Recoded q.headers) :
    q.confirmationId = p.confirmationId := by
  simp only [confirmationId, header?, SortedMap.get?, hr.text?]

theorem confirmationId_ofBasic_copyTo (p : Properties) : (ofBasic (p.copyTo {})).confirmationId = p.confirmationId := by
  simp only [confirmationId, header?, ofBasic, copyTo, Option.or_none, getD_basicHeaders]

/-- The sequence number and the expiration are there just if their texts are digits, perhaps behind a plus sign, that
write a number of 64 bits: the text of the header, be it a string or octets, and the text in the record. A sequence
number that was written is read back, also when a broker hands back any of the headers as octets and when the
properties go through a record. -/
theorem decimal_fields :
    (∀ (p : Properties) (n : UInt64), p.confirmationId = some n ↔
      ∃ v s, p.header? confirmationHeader = some v ∧ v.Holds s ∧ Text.WritesWord s n) ∧
    (∀ (b : BasicProperties) (d : Duration), (ofBasic b).expiration = some d ↔
      ∃ s n, b.expiration = some s ∧ Text.WritesWord s n ∧ d.nanoseconds = n.toNat * 1000000) ∧
    ∀ (p : Properties) (n : UInt64),
      (p.update (.confirmationId n)).confirmationId = some n ∧
      (ofBasic ((p.update (.confirmationId n)).copyTo {})).confirmationId = some n ∧
      (∀ h, (p.update (.confirmationId n)).headers.Recoded h →
        ((p.update (.confirmationId n)).mapHeaders fun _ => h).confirmationId = some n) ∧
      ∀ b, ((p.update (.confirmationId n)).copyTo {}).Recoded b → (ofBasic b).confirmationId = some n := by
  refine ⟨fun _ _ => confirmationId_eq_some_iff, fun b d => ?_, fun p n => ⟨confirmationId_update p n, ?_, ?_, ?_⟩⟩
  · rw [expiration_ofBasic_eq_some_iff]
    constructor
    · rintro ⟨s, n, hs, hn, rfl⟩
      exact ⟨s, n, hs, hn, rfl⟩
    · rintro ⟨s, n, hs, hn, hd⟩
      exact ⟨s, n, hs, hn, Duration.ext_nanoseconds hd⟩
  · exact (confirmationId_ofBasic_copyTo _).trans (confirmationId_update p n)
  · intro h hr
    exact (confirmationId_of_recoded hr).trans (confirmationId_update p n)
  · intro b hr
    exact (confirmationId_of_recoded (recoded_ofBasic hr)).trans (confirmationId_update p n)

/-- The greatest number in octets, behind a plus sign and zeros, and written and handed back as octets. One more is no
expiration. -/
theorem decimal_fields_greatest :
    (withHeader {} confirmationHeader (.bytes (Text.utf8 "+0018446744073709551615"))).confirmationId =
      some 18446744073709551615 ∧
    (update {} (.confirmationId 18446744073709551615)).headersToOctets.confirmationId = some 18446744073709551615 ∧
    (ofBasic { expiration := some "18446744073709551616" }).expiration = none := by
  have hwrites : Text.WritesWord "+0018446744073709551615" 18446744073709551615 := Text.readWord?_eq_some_iff.1 rfl
  have hover (n : UInt64) : ¬Text.WritesWord "18446744073709551616" n := by
    rw [← Text.readWord?_eq_some_iff]
    exact nofun
  obtain ⟨hid, hexpiration, hback⟩ := decimal_fields
  refine ⟨(hid _ _).2 ⟨_, _, rfl, .octets _, hwrites⟩, ?_, ?_⟩
  · exact (hback {} 18446744073709551615).2.2.1 _ (recoded_headersToOctets _)
  · apply Option.eq_none_iff_forall_ne_some.2
    intro d hd
    obtain ⟨s, n, hs, hn, -⟩ := (hexpiration _ d).1 hd
    cases hs
    exact hover n hn

end Properties

end BrokerClient
