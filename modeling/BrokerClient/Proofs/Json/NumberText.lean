import BrokerClient.Json.NumberText
import BrokerClient.Proofs.Text.Decimal

/-!
# Number texts, read back

The characters of a number text are read as the very parts that were written (`ofChars?_chars`). The text of an
integer is such a text, and its digits write the integer (`ofDigits_digitsOf`).
-/
namespace BrokerClient.Json.NumberText

open Text (digitValue? ofDigits)

variable {t : NumberText} {ds : List Nat} {cs : List Char}

/-! ## Digits -/

theorem digitValue?_ofNat : ∀ d < 10, digitValue? (Char.ofNat ('0'.toNat + d)) = some d := by
  decide

/-- The text goes on with something else than a digit, or is at its end. -/
def NoDigit (cs : List Char) : Prop :=
  ∀ c ∈ cs.head?, digitValue? c = none

theorem takeDigits_of_noDigit (h : NoDigit cs) : takeDigits cs = ([], cs) := by
  cases cs with
  | nil => rfl
  | cons c cs => simp only [takeDigits, h c rfl]

theorem takeDigits_append (hd : ∀ d ∈ ds, d < 10) (h : NoDigit cs) : takeDigits (digitChars ds ++ cs) = (ds, cs) := by
  induction ds with
  | nil => exact takeDigits_of_noDigit h
  | cons d ds ih =>
      have hfirst := digitValue?_ofNat d (hd d List.mem_cons_self)
      have hrest := ih fun e he => hd e (List.mem_cons_of_mem d he)
      simp only [digitChars] at hrest
      simp only [digitChars, List.map_cons, List.cons_append, takeDigits, hfirst, hrest]

theorem takeDigits_digitChars (hd : ∀ d ∈ ds, d < 10) : takeDigits (digitChars ds) = (ds, []) := by
  have hend : NoDigit [] := by simp [NoDigit]
  simpa using takeDigits_append hd hend

/-! ## Parts -/

/-- Digits are below ten, none stands behind a leading zero, and an exponent has some. -/
structure WellFormed (t : NumberText) : Prop where
  isWhole : isWhole t.whole = true
  whole : ∀ d ∈ t.whole, d < 10
  fraction : ∀ d ∈ t.fraction, d < 10
  exponent : ∀ e ∈ t.exponent, e.2 ≠ [] ∧ ∀ d ∈ e.2, d < 10

def exponentChars : Option (Bool × List Nat) → List Char
  | none => []
  | some (negative, ds) => 'e' :: (if negative then '-' else '+') :: digitChars ds

def fractionChars (ds : List Nat) : List Char :=
  if ds.isEmpty then [] else '.' :: digitChars ds

theorem chars_eq (t : NumberText) :
    t.chars = (if t.negative then ['-'] else []) ++
      (digitChars t.whole ++ (fractionChars t.fraction ++ exponentChars t.exponent)) := by
  obtain ⟨negative, whole, fraction, exponent⟩ := t
  cases exponent <;> simp [chars, fractionChars, exponentChars]

theorem readExponent?_exponentChars {e : Option (Bool × List Nat)} (h : ∀ x ∈ e, x.2 ≠ [] ∧ ∀ d ∈ x.2, d < 10) :
    readExponent? (exponentChars e) = some e := by
  cases e with
  | none => rfl
  | some x =>
      obtain ⟨negative, ds⟩ := x
      obtain ⟨hne, hd⟩ := h _ rfl
      have htake : takeDigits (digitChars ds) = (ds, []) := takeDigits_digitChars hd
      cases negative <;> cases ds <;> simp_all [exponentChars, readExponent?]

theorem noDigit_exponentChars (e : Option (Bool × List Nat)) : NoDigit (exponentChars e) := by
  cases e with
  | none => simp [NoDigit, exponentChars]
  | some x =>
      intro c hc
      obtain rfl : 'e' = c := by simpa [exponentChars] using hc
      decide

theorem noDigit_fractionChars (ds : List Nat) (e : Option (Bool × List Nat)) :
    NoDigit (fractionChars ds ++ exponentChars e) := by
  cases ds with
  | nil => exact noDigit_exponentChars e
  | cons d ds =>
      intro c hc
      obtain rfl : '.' = c := by simpa [fractionChars] using hc
      decide

/-- No number text begins with a minus behind its sign. -/
theorem digitChars_append_ne_minus (hd : ∀ d ∈ ds, d < 10) (hne : ds ≠ []) (cs rest : List Char) :
    digitChars ds ++ cs ≠ '-' :: rest := by
  intro h
  cases ds with
  | nil => exact hne rfl
  | cons d ds =>
      have hdigit := digitValue?_ofNat d (hd d List.mem_cons_self)
      simp only [digitChars, List.map_cons, List.cons_append, List.cons.injEq] at h
      rw [h.1] at hdigit
      cases hdigit

theorem ofChars?_chars (h : t.WellFormed) : ofChars? t.chars = some t := by
  obtain ⟨negative, whole, fraction, exponent⟩ := t
  obtain ⟨hwhole, hdigits, hfraction, hexponent⟩ := h
  simp only at hwhole hdigits hfraction hexponent
  have hread := readExponent?_exponentChars hexponent
  have htake := takeDigits_append hdigits (noDigit_fractionChars fraction exponent)
  have hne : whole ≠ [] := by
    rintro rfl
    cases hwhole
  have hsign := digitChars_append_ne_minus hdigits hne (fractionChars fraction ++ exponentChars exponent)
  rw [chars_eq]
  unfold ofChars?
  cases fraction with
  | nil =>
      have hpoint : ∀ rest, exponentChars exponent ≠ '.' :: rest := by
        cases exponent <;> simp [exponentChars]
      cases negative <;> simp_all [fractionChars]
  | cons d ds =>
      have hmore := takeDigits_append hfraction (noDigit_exponentChars exponent)
      cases negative <;> simp_all [fractionChars]

/-! ## Integers -/

theorem digitsOf_of_lt {n : Nat} (h : n < 10) : digitsOf n = [n] := by
  simp [digitsOf, Nat.toDigits_of_lt_base h, Nat.toNat_digitChar_of_lt_ten h]

theorem digitsOf_of_le {n : Nat} (h : 10 ≤ n) : digitsOf n = digitsOf (n / 10) ++ [n % 10] := by
  have hlast : n % 10 < 10 := Nat.mod_lt n (by decide)
  simp [digitsOf, Nat.toDigits_of_base_le (by decide) h, Nat.toNat_digitChar_of_lt_ten hlast]

theorem lt_of_mem_digitsOf {n d : Nat} (h : d ∈ digitsOf n) : d < 10 := by
  obtain ⟨c, hc, rfl⟩ := List.mem_map.1 h
  have hdigit := Nat.isDigit_of_mem_toDigits (by decide) (by decide) hc
  have := Char.isDigit_iff_toNat.1 hdigit
  simp only [Char.reduceToNat] at this ⊢
  omega

theorem ofDigits_digitsOf (n : Nat) : ofDigits (digitsOf n) = n := by
  have h : Nat.ofDigitChars 10 (Nat.toDigits 10 n) 0 = n := Nat.ofDigitChars_ten_toDigits
  rwa [Nat.ofDigitChars_eq_foldl, ← List.foldl_map] at h

/-- The first digit of a positive number is not zero. -/
theorem exists_digitsOf_eq_cons {n : Nat} (h : 0 < n) : ∃ d ds, digitsOf n = d :: ds ∧ d ≠ 0 := by
  induction n using Nat.strongRecOn with
  | ind n ih =>
      by_cases hn : n < 10
      · exact ⟨n, [], digitsOf_of_lt hn, by omega⟩
      · obtain ⟨d, ds, hds, hd⟩ := ih (n / 10) (by omega) (by omega)
        exact ⟨d, ds ++ [n % 10], by rw [digitsOf_of_le (by omega), hds]; rfl, hd⟩

theorem isWhole_digitsOf (n : Nat) : isWhole (digitsOf n) = true := by
  by_cases hn : n = 0
  · rw [hn]
    rfl
  · obtain ⟨d, ds, hds, hd⟩ := exists_digitsOf_eq_cons (Nat.pos_of_ne_zero hn)
    rw [hds]
    cases ds <;> simp [isWhole, hd]

theorem digitsOf_ne_nil (n : Nat) : digitsOf n ≠ [] := by
  intro h
  have hwhole := isWhole_digitsOf n
  rw [h] at hwhole
  cases hwhole

theorem wellFormed_integer (negative : Bool) (n : Nat) : WellFormed ⟨negative, digitsOf n, [], none⟩ where
  isWhole := isWhole_digitsOf n
  whole := fun _ => lt_of_mem_digitsOf
  fraction := by simp
  exponent := by simp

end BrokerClient.Json.NumberText
