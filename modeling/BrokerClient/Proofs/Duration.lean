import BrokerClient.Duration

/-!
# Durations in words

A duration is made again of its seconds and nanoseconds (`ofParts?_parts`). Under a bound it cannot be seen that
doubling is cut off at the longest duration (`nanoseconds_min_double`).
-/
namespace BrokerClient.Duration

theorem ext_nanoseconds {d d' : Duration} (h : d.nanoseconds = d'.nanoseconds) : d = d' := by
  cases d
  cases d'
  exact (mk.injEq ..).mpr h

theorem seconds_lt (d : Duration) : d.seconds < UInt64.size :=
  Nat.div_lt_of_lt_mul (Nat.mul_comm .. ▸ d.bounded)

theorem subsecondNanos_lt (d : Duration) : d.subsecondNanos < 1000000000 :=
  Nat.mod_lt _ (by decide)

theorem ofParts?_parts (d : Duration) :
    ofParts? (UInt64.ofNat d.seconds) (UInt32.ofNat d.subsecondNanos) = some d := by
  have hs := d.seconds_lt
  have hn := d.subsecondNanos_lt
  have hsum : (UInt64.ofNat d.seconds).toNat * 1000000000 + (UInt32.ofNat d.subsecondNanos).toNat = d.nanoseconds := by
    rw [UInt64.toNat_ofNat_of_lt' hs, UInt32.toNat_ofNat_of_lt' (Nat.lt_trans hn (by decide))]
    exact Nat.div_add_mod' ..
  simp only [ofParts?, hsum, d.bounded, dite_true]

/-! ## Doubling -/

theorem nanoseconds_saturating (n : Nat) :
    (saturating n).nanoseconds = Min.min n (UInt64.size * 1000000000 - 1) := by
  unfold saturating
  split <;> simp only [max] <;> omega

theorem nanoseconds_min (d d' : Duration) : (d.min d').nanoseconds = Min.min d.nanoseconds d'.nanoseconds := by
  unfold Duration.min
  split <;> omega

/-- What is cut off at the longest duration is beyond any bound. -/
theorem nanoseconds_min_double (d bound : Duration) :
    (d.double.min bound).nanoseconds = Min.min (2 * d.nanoseconds) bound.nanoseconds := by
  have := bound.bounded
  rw [nanoseconds_min, double, nanoseconds_saturating]
  omega

end BrokerClient.Duration
