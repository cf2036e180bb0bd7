import BrokerClient.Proofs.Properties.Basic

/-!
# Expirations in records

A record has an expiration as the decimal text of its milliseconds. The text is read again, as the expiration cut to
whole milliseconds, if these are a number of 64 bits; a longer expiration is lost (`expiration_exchanged`).
-/
namespace BrokerClient

/-- The greatest whole number of milliseconds in a duration. -/
structure Duration.CutTo (d r : Duration) : Prop where
  whole : 1000000 ∣ r.nanoseconds
  le : r.nanoseconds ≤ d.nanoseconds
  lt : d.nanoseconds < r.nanoseconds + 1000000

theorem Duration.cutTo_ofMilliseconds {d : Duration} (h : d.milliseconds < UInt64.size) :
    d.CutTo (ofMilliseconds (UInt64.ofNat d.milliseconds)) := by
  have hword : (UInt64.ofNat d.milliseconds).toNat = d.nanoseconds / 1000000 := UInt64.toNat_ofNat_of_lt' h
  constructor <;> simp only [ofMilliseconds, hword]
  · exact Nat.dvd_mul_left ..
  · exact Nat.div_mul_le_self ..
  · omega

namespace Properties

variable {p : Properties} {d : Duration}

theorem expiration_copyTo (h : p.expiration = some d) (t : BasicProperties) :
    (p.copyTo t).expiration = some (toString d.milliseconds) := by
  simp only [copyTo, basicExpiration, h, Option.map_some, Option.some_or]

theorem expiration_ofBasic_copyTo (h : p.expiration = some d) (t : BasicProperties) :
    (ofBasic (p.copyTo t)).expiration = (Text.readWord? (toString d.milliseconds)).map Duration.ofMilliseconds := by
  simp only [ofBasic, expiration_copyTo h, Option.bind_some]

/-- Whatever record is written over, the text of an expiration is read again, as its whole milliseconds, if these fit
64 bits. If they do not, no expiration is read. -/
theorem expiration_exchanged (h : p.expiration = some d) (t : BasicProperties) :
    (d.milliseconds < UInt64.size →
      ∃ r, (ofBasic (p.copyTo t)).expiration = some r ∧ d.CutTo r) ∧
    (UInt64.size ≤ d.milliseconds →
      (p.copyTo t).expiration.isSome = true ∧ (ofBasic (p.copyTo t)).expiration = none) := by
  have hread := expiration_ofBasic_copyTo h t
  rw [Text.readWord?_toString_nat] at hread
  constructor
  · intro hfits
    rw [if_pos hfits] at hread
    exact ⟨_, hread, Duration.cutTo_ofMilliseconds hfits⟩
  · intro hlong
    rw [if_neg (Nat.not_lt.2 hlong)] at hread
    exact ⟨by rw [expiration_copyTo h]; rfl, hread⟩

/-- The longest expiration that is kept, over a record with one of its own, and the longest of all. -/
theorem expiration_exchanged_longest :
    (∃ r, (ofBasic (copyTo { expiration := some ⟨18446744073709551615999999, by decide⟩ }
      { expiration := some "60000" })).expiration = some r ∧
        Duration.CutTo ⟨18446744073709551615999999, by decide⟩ r) ∧
    (copyTo { expiration := some .max } {}).expiration.isSome = true ∧
      (ofBasic (copyTo { expiration := some .max } {})).expiration = none :=
  ⟨(expiration_exchanged rfl { expiration := some "60000" }).1 (by decide),
    (expiration_exchanged rfl {}).2 (by decide)⟩

/-- A millisecond more than 64 bits can count is written and not read. -/
theorem not_expiration_kept : ¬∀ (p : Properties) (d : Duration) (t : BasicProperties), p.expiration = some d →
    ∃ r, (ofBasic (p.copyTo t)).expiration = some r ∧ d.CutTo r := by
  intro h
  have hlong : UInt64.size ≤ Duration.milliseconds ⟨18446744073709551616000000, by decide⟩ := by decide
  obtain ⟨r, hr, -⟩ := h { expiration := some ⟨18446744073709551616000000, by decide⟩ } _ {} rfl
  rw [expiration_ofBasic_copyTo rfl, Text.readWord?_toString_nat, if_neg (Nat.not_lt.2 hlong)] at hr
  cases hr

end Properties

end BrokerClient
