import BrokerClient.Supervisor.Verdict
import Mathlib.Data.List.Infix

/-!
# Verdicts on refusals

A channel that cannot recover is refused for good, whatever its number is and whatever verdicts the reply codes have
(`classify_refusal`): the words that would let a refusal pass are not among those that tell of it.
-/
namespace BrokerClient

theorem occursIn_iff {needle hay : List Char} : occursIn needle hay = true ↔ needle <:+: hay := by
  induction hay with
  | nil => rw [occursIn, List.isEmpty_iff, List.infix_nil]
  | cons c cs ih => rw [occursIn, Bool.or_eq_true, ih, List.isPrefixOf_iff_prefix, List.infix_cons_iff]

/-- A channel that cannot recover is not held. -/
def TransportError.refusal (id : ChannelId) : TransportError :=
  .notSupported ("channel " ++ id.text ++ " does not support auto-recovery")

theorem ChannelId.isDigit_of_mem_text {id : ChannelId} {c : Char} (hc : c ∈ id.text.toList) : c.isDigit = true := by
  rw [text, Nat.toString_eq_repr, Nat.toList_repr] at hc
  exact Nat.isDigit_of_mem_toDigits (by decide) (by decide) hc

theorem isPipeliningForbidden_refusal (id : ChannelId) :
    isPipeliningForbidden ("channel " ++ id.text ++ " does not support auto-recovery") = false := by
  refine eq_false_of_ne_true fun h => ?_
  -- The capital letter occurs neither in the words nor among the digits.
  have hP : 'P' ∈ ("channel " ++ id.text ++ " does not support auto-recovery").toList :=
    (occursIn_iff.1 h).subset (by decide)
  simp only [String.toList_append, List.mem_append] at hP
  rcases hP with (hP | hP) | hP
  · revert hP; decide
  · exact absurd (ChannelId.isDigit_of_mem_text hP) (by decide)
  · revert hP; decide

theorem Classifier.classify_refusal (k : Classifier) (id : ChannelId) : k.classify (.refusal id) = .throw := by
  simp only [classify, TransportError.refusal, isPipeliningForbidden_refusal, Bool.false_eq_true, if_false]

end BrokerClient
