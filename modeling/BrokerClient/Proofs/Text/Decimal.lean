import BrokerClient.Text.Decimal
import Mathlib.Data.List.Induction

/-!
# Decimal texts, read

A run of ASCII digits is read as the number that it writes (`readDigits?_of_isDigit`), so a word is read back from its
plain decimal text (`readWord?_toString`). Just the texts of one grammar are read, digits with or without a plus sign
before them (`Numeral`), as the numbers that they write (`readWord?_eq_some_iff`).
-/
namespace BrokerClient.Text

/-! ## The grammar -/

/-- One or more ASCII digits write a number, in base ten. -/
inductive Digits : List Char → Nat → Prop where
  | single {c : Char} (hc : c.isDigit = true) : Digits [c] (c.toNat - '0'.toNat)
  | concat {cs : List Char} {n : Nat} {c : Char} (hs : Digits cs n) (hc : c.isDigit = true) :
      Digits (cs ++ [c]) (10 * n + (c.toNat - '0'.toNat))

/-- Digits write a number with or without a plus sign before them. -/
inductive Numeral : List Char → Nat → Prop where
  | plain {cs : List Char} {n : Nat} (h : Digits cs n) : Numeral cs n
  | plus {cs : List Char} {n : Nat} (h : Digits cs n) : Numeral ('+' :: cs) n

/-- A text writes a number of 64 bits. -/
def WritesWord (s : String) (n : UInt64) : Prop :=
  Numeral s.toList n.toNat

/-! ## Digits -/

theorem digitValue?_of_isDigit {c : Char} (h : c.isDigit = true) : digitValue? c = some (c.toNat - '0'.toNat) := by
  simp only [Char.isDigit, Bool.and_eq_true, decide_eq_true_eq] at h
  exact if_pos h

theorem mapM_digitValue? {cs : List Char} (h : ∀ c ∈ cs, c.isDigit = true) :
    cs.mapM digitValue? = some (cs.map (fun c => c.toNat - '0'.toNat)) := by
  induction cs with
  | nil => rfl
  | cons c cs ih =>
      obtain ⟨hc, hcs⟩ := List.forall_mem_cons.1 h
      simp only [List.mapM_cons, digitValue?_of_isDigit hc, ih hcs, List.map_cons]
      rfl

theorem readDigits?_of_isDigit {cs : List Char} (hne : cs ≠ []) (h : ∀ c ∈ cs, c.isDigit = true) :
    readDigits? cs = some (Nat.ofDigitChars 10 cs 0) := by
  cases cs with
  | nil => exact absurd rfl hne
  | cons c cs =>
      simp only [readDigits?, mapM_digitValue? h, Option.map_some, ofDigits, List.foldl_map, Nat.ofDigitChars_eq_foldl]

theorem digitValue?_eq_some_iff {c : Char} {d : Nat} :
    digitValue? c = some d ↔ c.isDigit = true ∧ d = c.toNat - '0'.toNat := by
  by_cases hc : c.isDigit = true
  · simp [digitValue?_of_isDigit hc, hc, eq_comm]
  · have hnone : digitValue? c = none := by
      simp only [Char.isDigit, Bool.and_eq_true, decide_eq_true_eq] at hc
      exact if_neg hc
    simp [hnone, hc]

theorem readDigits?_of_ne_nil {cs : List Char} (hne : cs ≠ []) :
    readDigits? cs = (cs.mapM digitValue?).map ofDigits := by
  cases cs with
  | nil => exact absurd rfl hne
  | cons c cs => rfl

theorem readDigits?_singleton (c : Char) : readDigits? [c] = digitValue? c := by
  rw [readDigits?_of_ne_nil (by simp), List.mapM_cons, List.mapM_nil]
  cases digitValue? c <;> simp [ofDigits]

/-- The last digit counts once, those before it ten times. -/
theorem readDigits?_concat {cs : List Char} (hne : cs ≠ []) (c : Char) :
    readDigits? (cs ++ [c]) = (readDigits? cs).bind fun n => (digitValue? c).map fun d => 10 * n + d := by
  rw [readDigits?_of_ne_nil hne, readDigits?_of_ne_nil (by simp), List.mapM_append]
  cases cs.mapM digitValue? with
  | none => rfl
  | some ds => cases hc : digitValue? c <;> simp [hc, ofDigits]

theorem readDigits?_eq_some_iff {cs : List Char} {n : Nat} : readDigits? cs = some n ↔ Digits cs n := by
  constructor
  · intro h
    induction cs using List.reverseRecOn generalizing n with
    | nil => cases h
    | append_singleton cs c ih =>
        by_cases hne : cs = []
        · subst hne
          rw [List.nil_append, readDigits?_singleton] at h
          obtain ⟨hdigit, rfl⟩ := digitValue?_eq_some_iff.1 h
          exact .single hdigit
        · rw [readDigits?_concat hne] at h
          obtain ⟨m, hm, hlast⟩ := Option.bind_eq_some_iff.1 h
          obtain ⟨d, hd, rfl⟩ := Option.map_eq_some_iff.1 hlast
          obtain ⟨hdigit, rfl⟩ := digitValue?_eq_some_iff.1 hd
          exact .concat (ih hm) hdigit
  · intro h
    induction h with
    | single hc => rw [readDigits?_singleton, digitValue?_of_isDigit hc]
    | @concat cs n c hs hc ih =>
        have hne : cs ≠ [] := by
          rintro rfl
          cases ih
        rw [readDigits?_concat hne, ih, digitValue?_of_isDigit hc]
        rfl

theorem readUnsigned?_of_isDigit {cs : List Char} (hne : cs ≠ []) (h : ∀ c ∈ cs, c.isDigit = true) :
    readUnsigned? cs = some (Nat.ofDigitChars 10 cs 0) := by
  have hplus : ∀ rest, cs ≠ '+' :: rest := by
    rintro rest rfl
    exact absurd (h '+' List.mem_cons_self) (by decide)
  unfold readUnsigned?
  split
  · exact absurd rfl (hplus _)
  · exact readDigits?_of_isDigit hne h

theorem readDigits?_plus (cs : List Char) : readDigits? ('+' :: cs) = none := by
  rw [readDigits?_of_ne_nil (by simp), List.mapM_cons]
  rfl

theorem readUnsigned?_eq_some_iff {cs : List Char} {n : Nat} : readUnsigned? cs = some n ↔ Numeral cs n := by
  unfold readUnsigned?
  split
  · rename_i cs
    rw [readDigits?_eq_some_iff]
    refine ⟨.plus, fun h => ?_⟩
    cases h with
    | plus h => exact h
    | plain h =>
        rw [← readDigits?_eq_some_iff, readDigits?_plus] at h
        cases h
  · rename_i hplus
    rw [readDigits?_eq_some_iff]
    refine ⟨.plain, fun h => ?_⟩
    cases h with
    | plain h => exact h
    | plus h => exact absurd rfl (hplus _)

/-! ## Words -/

theorem readUnsigned?_toString (n : Nat) : readUnsigned? (toString n).toList = some n := by
  rw [Nat.toString_eq_repr, Nat.toList_repr,
    readUnsigned?_of_isDigit Nat.toDigits_ne_nil fun c hc => Nat.isDigit_of_mem_toDigits (by decide) (by decide) hc,
    Nat.ofDigitChars_ten_toDigits]

theorem toString_inj {n m : Nat} : toString n = toString m ↔ n = m := by
  refine ⟨fun h => ?_, fun h => h ▸ rfl⟩
  have hread : readUnsigned? (toString n).toList = readUnsigned? (toString m).toList := by rw [h]
  rwa [readUnsigned?_toString, readUnsigned?_toString, Option.some.injEq] at hread

theorem readWord?_toString_nat (n : Nat) :
    readWord? (toString n) = if n < UInt64.size then some (UInt64.ofNat n) else none := by
  simp only [readWord?, readUnsigned?_toString]

theorem readWord?_toString (n : UInt64) : readWord? (toString n.toNat) = some n := by
  rw [readWord?_toString_nat, if_pos n.toNat_lt_size, UInt64.ofNat_toNat]

theorem readWord?_eq_some_iff {s : String} {n : UInt64} : readWord? s = some n ↔ WritesWord s n := by
  unfold WritesWord readWord?
  rw [← readUnsigned?_eq_some_iff]
  split
  · rename_i m hm
    rw [hm, Option.some.injEq]
    constructor
    · intro h
      split at h
      · rename_i hlt
        cases h
        exact (UInt64.toNat_ofNat_of_lt' hlt).symm
      · cases h
    · rintro rfl
      rw [if_pos n.toNat_lt_size, UInt64.ofNat_toNat]
  · rename_i hnone
    rw [hnone]
    exact ⟨nofun, nofun⟩

end BrokerClient.Text
