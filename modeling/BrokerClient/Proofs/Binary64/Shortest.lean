import BrokerClient.Binary64.Shortest
import BrokerClient.Proofs.Json.NumberText
import Mathlib.Data.List.DropRight

/-!
# Digits of a shortest decimal

A shortest decimal has digits only, at least one of them, and does not begin with a zero unless it is zero itself
(`leads_shortest`).
-/
namespace BrokerClient.Binary64

open Json (NumberText)

/-- The characters are decimal digits, and a first one that is zero is the only one. -/
structure Decimal.Leads (d : Decimal) : Prop where
  digits : ∀ c ∈ d.digits, c.isDigit = true
  first : ∃ c cs, d.digits = c :: cs ∧ (c = '0' → d = ⟨['0'], 0⟩)

theorem exists_toDigits_eq_cons {n : Nat} (h : 0 < n) : ∃ c cs, Nat.toDigits 10 n = c :: cs ∧ c ≠ '0' := by
  obtain ⟨d, ds, hds, hd⟩ := NumberText.exists_digitsOf_eq_cons h
  obtain ⟨c, cs, hcs, rfl, -⟩ := List.map_eq_cons_iff.1 hds
  refine ⟨c, cs, hcs, ?_⟩
  rintro rfl
  exact hd rfl

theorem digits_ofUnits (n : Nat) (p : Int) :
    (Decimal.ofUnits n p).digits = (Nat.toDigits 10 n).rdropWhile (· == '0') := rfl

/-- The zeros that are dropped are behind a digit that stays. -/
theorem leads_ofUnits {n : Nat} (h : 0 < n) (p : Int) : (Decimal.ofUnits n p).Leads := by
  have hbegins := List.rdropWhile_prefix (· == '0') (Nat.toDigits 10 n)
  obtain ⟨c, cs, hcs, hc⟩ := exists_toDigits_eq_cons h
  refine ⟨fun d hd => ?_, ?_⟩
  · exact Nat.isDigit_of_mem_toDigits (by decide) (by decide) (hbegins.subset hd)
  · cases hdigits : (Decimal.ofUnits n p).digits with
    | nil =>
        rw [digits_ofUnits, List.rdropWhile_eq_nil_iff] at hdigits
        have hzero := hdigits c (hcs ▸ List.mem_cons_self)
        exact absurd (beq_iff_eq.1 hzero) hc
    | cons c' cs' =>
        rw [← digits_ofUnits, hdigits, hcs, List.cons_prefix_cons] at hbegins
        exact ⟨c', cs', rfl, fun hz => absurd (hbegins.1.symm.trans hz) hc⟩

theorem pos_of_candidate? {tie : Tie} {x : Binary64} {p : Int} {n : Nat} (h : x.candidate? tie p = some n) :
    0 < n := by
  have hchoice : ∀ (nearer : Bool) (below : Nat), 0 < below → 0 < if nearer then below else below + 1 := by
    intro nearer below hbelow
    cases nearer
    · exact Nat.succ_pos below
    · exact hbelow
  simp only [candidate?] at h
  split at h
  · next hlower _ =>
    obtain rfl := Option.some.inj h
    exact hchoice _ _ (of_decide_eq_true (Bool.and_eq_true_iff.1 hlower).1)
  · next hlower _ =>
    obtain rfl := Option.some.inj h
    exact of_decide_eq_true (Bool.and_eq_true_iff.1 hlower).1
  · obtain rfl := Option.some.inj h
    exact Nat.succ_pos _
  · cases h

theorem leads_shortest (tie : Tie) (x : Binary64) : (x.shortest tie).Leads := by
  simp only [shortest]
  split
  · next hfind =>
    obtain ⟨p, -, hp⟩ := List.exists_of_findSome?_eq_some hfind
    obtain ⟨n, hn, rfl⟩ := Option.map_eq_some_iff.1 hp
    exact leads_ofUnits (pos_of_candidate? hn) p
  · exact ⟨List.forall_mem_singleton.2 rfl, '0', [], rfl, fun _ => rfl⟩

end BrokerClient.Binary64
