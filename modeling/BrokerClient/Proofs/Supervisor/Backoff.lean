import BrokerClient.Proofs.Duration
import BrokerClient.Supervisor.Backoff
import Mathlib.Algebra.Group.Nat.Defs

/-!
# Delays in closed form

The n-th delay is the first one times 2^n, or the longest delay if that is less (`delays_closed_form`).
-/
namespace BrokerClient.Backoff

/-- Doubled again and again from the first number on, and never beyond the longest. -/
def doublings (first longest n : Nat) : List Nat :=
  (List.range n).map fun k => min longest (first * 2 ^ k)

theorem doublings_succ (first longest n : Nat) :
    doublings first longest (n + 1) = min longest first :: doublings (2 * first) longest n := by
  have hdoubled (k : Nat) : first * 2 ^ (k + 1) = 2 * first * 2 ^ k := by
    rw [Nat.pow_succ, Nat.mul_comm (2 ^ k), ← Nat.mul_assoc, Nat.mul_comm first]
  simp only [doublings, List.range_succ_eq_map, List.map_cons, List.map_map, Function.comp_def, Nat.pow_zero,
    Nat.mul_one, Nat.succ_eq_add_one, hdoubled]

theorem doublings_increase (first longest n : Nat) : (doublings first longest n).Pairwise (· ≤ ·) := by
  refine List.pairwise_map.2 (List.pairwise_lt_range.imp fun {j k} hlt => ?_)
  have hpow : first * 2 ^ j ≤ first * 2 ^ k :=
    Nat.mul_le_mul_left first (Nat.pow_le_pow_right (by decide) (Nat.le_of_lt hlt))
  omega

theorem le_of_mem_doublings {first longest n x : Nat} (h : x ∈ doublings first longest n) : x ≤ longest := by
  obtain ⟨k, -, rfl⟩ := List.mem_map.1 h
  exact Nat.min_le_left ..

/-- From a delay that is the longest or the first one, whichever is less. -/
theorem map_delays {b : Backoff} {first : Nat} (h : b.next.nanoseconds = min b.longest.nanoseconds first) (n : Nat) :
    (b.delays n).map Duration.nanoseconds = doublings first b.longest.nanoseconds n := by
  -- the exact delay may grow beyond all durations, so `first` is a number
  induction n generalizing b first with
  | zero => rfl
  | succ n ih =>
      have hnext : (b.next.double.min b.longest).nanoseconds = min b.longest.nanoseconds (2 * first) := by
        rw [Duration.nanoseconds_min_double, h]
        omega
      calc (b.delays (n + 1)).map Duration.nanoseconds
        _ = b.next.nanoseconds :: (b.step.2.delays n).map Duration.nanoseconds := rfl
        _ = min b.longest.nanoseconds first :: doublings (2 * first) b.longest.nanoseconds n := by
          rw [h, ih (b := b.step.2) hnext]
          rfl
        _ = doublings first b.longest.nanoseconds (n + 1) := (doublings_succ ..).symm

/-- For all bounds, the delays are the lesser of both bounds times the powers of two, as long as the longest one is not
exceeded: exactly so, even where a duration cannot be doubled. They never decrease, never exceed the longest one, and
stay there. -/
theorem delays_closed_form (shortest longest : Duration) (n : Nat) :
    ((start shortest longest).delays n).map Duration.nanoseconds = (List.range n).map (fun k =>
      min longest.nanoseconds (min shortest.nanoseconds longest.nanoseconds * 2 ^ k)) ∧
    ((start shortest longest).delays n).Pairwise (fun d d' => d.nanoseconds ≤ d'.nanoseconds) ∧
    (∀ d ∈ (start shortest longest).delays n, d.nanoseconds ≤ longest.nanoseconds) ∧
    ∀ before after, (start shortest longest).delays n = before ++ longest :: after → ∀ d ∈ after, d = longest := by
  have hfirst : (start shortest longest).next.nanoseconds =
      min longest.nanoseconds (min shortest.nanoseconds longest.nanoseconds) := by
    rw [start, Duration.nanoseconds_min]
    omega
  have hclosed : ((start shortest longest).delays n).map Duration.nanoseconds =
      doublings (min shortest.nanoseconds longest.nanoseconds) longest.nanoseconds n := map_delays hfirst n
  have hincrease := doublings_increase (min shortest.nanoseconds longest.nanoseconds) longest.nanoseconds n
  rw [← hclosed, List.pairwise_map] at hincrease
  have hbounded : ∀ d ∈ (start shortest longest).delays n, d.nanoseconds ≤ longest.nanoseconds := fun d hd =>
    le_of_mem_doublings (hclosed ▸ List.mem_map_of_mem hd)
  refine ⟨hclosed, hincrease, hbounded, fun before after heq d hd => ?_⟩
  rw [heq] at hincrease hbounded
  have hle := hbounded d (by simp [hd])
  have hge := (List.pairwise_cons.1 (List.pairwise_append.1 hincrease).2.1).1 d hd
  exact Duration.ext_nanoseconds (Nat.le_antisymm hle hge)

/-- More than half of the longest duration. -/
def aeon : Duration :=
  ⟨10000000000000000000000000000, by decide⟩

/-- Twice an aeon is no duration. -/
theorem delays_closed_form_aeon :
    (start aeon .max).delays 3 = [aeon] ++ .max :: [.max] ∧ ∀ d ∈ [Duration.max], d = .max := by
  have hdelays : (start aeon .max).delays 3 = [aeon] ++ .max :: [.max] := by decide
  exact ⟨hdelays, (delays_closed_form aeon .max 3).2.2.2 [aeon] [.max] hdelays⟩

end BrokerClient.Backoff
