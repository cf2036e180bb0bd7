import BrokerClient.Json.Token
import BrokerClient.Proofs.Json.NumberText

/-!
# Tokens, scanned

Tokens are found again in their characters if nothing lengthens them (`Scanned`). Brackets, commas, colons and strings
end by themselves (`scanFrom_chars_of_not_openEnded`), words and numbers at a character that is in neither
(`scanFrom_chars_of_closed`). What a string holds is found unit by unit, escaped or not (`scanFrom_unitChars`).
-/
namespace BrokerClient.Json

variable {t : Token} {ts ts' : List Token} {cs cs' : List Char}

/-! ## Strings -/

/-- The number of a character or of a surrogate. -/
def IsCodePoint (u : Nat) : Prop :=
  u < 0x110000

theorem hexValue?_hexDigit : ∀ d < 16, hexValue? (hexDigit d) = some d := by
  decide

/-- Units that have a short escape. -/
def hasShortEscape (u : Nat) : Bool :=
  [0x22, 0x5C, 0x08, 0x0C, 0x0A, 0x0D, 0x09].contains u

theorem scanFrom_shortEscape {u : Nat} (h : hasShortEscape u = true) (us : Units) (ts : List Token) (cs : List Char) :
    scanFrom (.string us) ts (unitChars u ++ cs) = scanFrom (.string (u :: us)) ts cs := by
  simp only [hasShortEscape, List.contains_iff_mem, List.mem_cons, List.not_mem_nil, or_false] at h
  rcases h with rfl | rfl | rfl | rfl | rfl | rfl | rfl <;> rfl

theorem unitChars_of_long {u : Nat} (h : hasShortEscape u = false) : unitChars u =
    if u < 0x20 ∨ ¬u.isValidChar then
      ['\\', 'u', hexDigit (u / 4096 % 16), hexDigit (u / 256 % 16), hexDigit (u / 16 % 16), hexDigit (u % 16)]
    else [Char.ofNat u] := by
  simp_all [hasShortEscape, unitChars]

theorem scanFrom_unitChars {u : Nat} (h : IsCodePoint u) (us : Units) (ts : List Token) (cs : List Char) :
    scanFrom (.string us) ts (unitChars u ++ cs) = scanFrom (.string (u :: us)) ts cs := by
  cases hshort : hasShortEscape u with
  | true => exact scanFrom_shortEscape hshort us ts cs
  | false =>
      rw [unitChars_of_long hshort]
      split
      · next hescaped =>
        -- Control characters and surrogates have no more than four hexadecimal digits.
        have hsmall : u < 0x10000 := by
          simp only [Nat.isValidChar, IsCodePoint] at h hescaped
          omega
        have h₁ := hexValue?_hexDigit (u / 4096 % 16) (by omega)
        have h₂ := hexValue?_hexDigit (u / 256 % 16) (by omega)
        have h₃ := hexValue?_hexDigit (u / 16 % 16) (by omega)
        have h₄ := hexValue?_hexDigit (u % 16) (by omega)
        have hsum : 16 * (16 * (16 * (u / 4096 % 16) + u / 256 % 16) + u / 16 % 16) + u % 16 = u := by
          omega
        simp [scanFrom, scanStep, h₁, h₂, h₃, h₄, hsum]
      · next hplain =>
        obtain ⟨hlarge, hvalid⟩ := not_or.1 hplain
        have hn : (Char.ofNat u).toNat = u := by
          rw [Char.ofNat, dif_pos (Decidable.not_not.1 hvalid)]
          rfl
        have hne : Char.ofNat u ≠ '"' ∧ Char.ofNat u ≠ '\\' := by
          constructor <;>
          · intro hc
            rw [← hn, hc] at hshort
            cases hshort
        simp [scanFrom, scanStep, hne, hn, hlarge]

theorem scanFrom_string {us : Units} (h : ∀ u ∈ us, IsCodePoint u) (done : Units) (ts : List Token) (cs : List Char) :
    scanFrom (.string done) ts (us.flatMap unitChars ++ '"' :: cs) =
      scanFrom .between (.string (done.reverse ++ us) :: ts) cs := by
  induction us generalizing done with
  | nil => simp [scanFrom, scanStep]
  | cons u us ih =>
      obtain ⟨hu, hus⟩ := List.forall_mem_cons.1 h
      rw [List.flatMap_cons, List.append_assoc, scanFrom_unitChars hu, ih hus]
      simp

/-! ## Words and numbers -/

/-- What follows lengthens neither a word nor a number. -/
def Closed (cs : List Char) : Prop :=
  ∀ c ∈ cs.head?, isWordChar c = false ∧ isNumberChar c = false

theorem closed_nil : Closed [] := by
  simp [Closed]

theorem Closed.append (h : Closed cs) (h' : Closed cs') : Closed (cs ++ cs') := by
  cases cs with
  | nil => exact h'
  | cons c cs => exact h

theorem scanFrom_word {w : List Char} (h : Token.ofWord? w.reverse = some t) (hc : Closed cs) (ts : List Token) :
    scanFrom (.word w) ts cs = scanFrom .between (t :: ts) cs := by
  cases cs with
  | nil => simp [scanFrom, scanEnd, h]
  | cons c cs => simp [scanFrom, scanStep, scanEnd, h, (hc c rfl).1]

theorem scanFrom_number {cs' : List Char} (hd : ∀ c ∈ cs', isNumberChar c = true) {n : NumberText} {done : List Char}
    (h : NumberText.ofChars? (done.reverse ++ cs') = some n) (hc : Closed cs) (ts : List Token) :
    scanFrom (.number done) ts (cs' ++ cs) = scanFrom .between (.number n :: ts) cs := by
  induction cs' generalizing done with
  | nil =>
      rw [List.append_nil] at h
      cases cs with
      | nil => simp [scanFrom, scanEnd, h]
      | cons c cs => simp [scanFrom, scanStep, scanEnd, h, (hc c rfl).2]
  | cons c cs' ih =>
      obtain ⟨hfirst, hrest⟩ := List.forall_mem_cons.1 hd
      simp only [List.cons_append, scanFrom, scanStep, hfirst, if_true]
      exact ih hrest (by simpa using h)

theorem isNumberChar_ofNat : ∀ d < 10, isNumberChar (Char.ofNat ('0'.toNat + d)) = true := by
  decide

theorem scanFirst_of_mem {c : Char} (h : c ∈ ['-', '0', '1', '2', '3', '4', '5', '6', '7', '8', '9'])
    (ts : List Token) : scanFirst ts c = some (.number [c], ts) := by
  simp only [List.mem_cons, List.not_mem_nil, or_false] at h
  rcases h with rfl | rfl | rfl | rfl | rfl | rfl | rfl | rfl | rfl | rfl | rfl <;> rfl

namespace NumberText

variable {n : NumberText}

theorem isNumberChar_of_mem_digitChars {ds : List Nat} (h : ∀ d ∈ ds, d < 10) :
    ∀ c ∈ digitChars ds, isNumberChar c = true := by
  intro c hc
  obtain ⟨d, hd, rfl⟩ := List.mem_map.1 hc
  exact isNumberChar_ofNat d (h d hd)

theorem isNumberChar_of_mem_chars (h : n.WellFormed) : ∀ c ∈ n.chars, isNumberChar c = true := by
  have hwhole := isNumberChar_of_mem_digitChars h.whole
  have hfraction := isNumberChar_of_mem_digitChars h.fraction
  have hsign : ∀ b : Bool, isNumberChar (if b then '-' else '+') = true := by decide
  intro c hc
  rw [chars_eq, List.mem_append, List.mem_append, List.mem_append] at hc
  rcases hc with hc | hc | hc | hc
  · split at hc
    · obtain rfl := List.mem_singleton.1 hc
      rfl
    · cases hc
  · exact hwhole c hc
  · unfold fractionChars at hc
    split at hc
    · cases hc
    · rcases List.mem_cons.1 hc with rfl | hc
      · rfl
      · exact hfraction c hc
  · cases he : n.exponent with
    | none =>
        rw [he] at hc
        cases hc
    | some e =>
        rw [he] at hc
        rcases List.mem_cons.1 hc with rfl | hc
        · rfl
        rcases List.mem_cons.1 hc with rfl | hc
        · exact hsign e.1
        · exact isNumberChar_of_mem_digitChars (h.exponent e he).2 c hc

/-- A number begins with its sign or a digit. -/
theorem exists_chars_eq_cons (h : n.WellFormed) :
    ∃ c cs, n.chars = c :: cs ∧ c ∈ ['-', '0', '1', '2', '3', '4', '5', '6', '7', '8', '9'] := by
  have hdigit : ∀ d < 10, Char.ofNat ('0'.toNat + d) ∈ ['-', '0', '1', '2', '3', '4', '5', '6', '7', '8', '9'] := by
    decide
  rw [chars_eq]
  cases n.negative with
  | true => exact ⟨'-', _, rfl, by decide⟩
  | false =>
      cases hw : n.whole with
      | nil =>
          have hwhole := h.isWhole
          rw [hw] at hwhole
          cases hwhole
      | cons d ds => exact ⟨_, _, rfl, hdigit d (h.whole d (hw ▸ List.mem_cons_self))⟩

end NumberText

/-! ## Tokens -/

/-- The parts of a token can be written. -/
def Token.Legible : Token → Prop
  | .number n => n.WellFormed
  | .string us => ∀ u ∈ us, IsCodePoint u
  | _ => True

/-- Words and numbers go on as long as they can; every other token has an end of its own. -/
def Token.isOpenEnded : Token → Bool
  | .null | .bool _ | .number _ => true
  | _ => false

theorem scanFrom_chars_of_not_openEnded (h : t.Legible) (ht : t.isOpenEnded = false) (ts : List Token)
    (cs : List Char) : scanFrom .between ts (t.chars ++ cs) = scanFrom .between (t :: ts) cs := by
  cases t with
  | null | bool | number => cases ht
  | string us =>
      simp only [Token.chars, List.append_assoc, List.cons_append]
      exact scanFrom_string h [] ts cs
  | openArray | closeArray | openObject | closeObject | comma | colon => rfl

theorem scanFrom_chars_of_closed (h : t.Legible) (hc : Closed cs) (ts : List Token) :
    scanFrom .between ts (t.chars ++ cs) = scanFrom .between (t :: ts) cs := by
  cases t with
  | null => exact scanFrom_word rfl hc ts
  | bool b => cases b <;> exact scanFrom_word rfl hc ts
  | number n =>
      obtain ⟨c, cs', hchars, hfirst⟩ := NumberText.exists_chars_eq_cons h
      have hread := NumberText.ofChars?_chars h
      have hall := NumberText.isNumberChar_of_mem_chars h
      rw [hchars] at hread hall
      simp only [Token.chars, hchars, List.cons_append, scanFrom, scanStep, scanFirst_of_mem hfirst]
      exact scanFrom_number (List.forall_mem_cons.1 hall).2 (by simpa using hread) hc ts
  | string | openArray | closeArray | openObject | closeObject | comma | colon =>
      exact scanFrom_chars_of_not_openEnded h rfl ts cs

/-! ## Rows of tokens -/

def rowChars (ts : List Token) : List Char :=
  ts.flatMap Token.chars

/-- The characters of the tokens are scanned as these tokens, if what follows does not lengthen the last one. -/
def Scanned (ts : List Token) : Prop :=
  ∀ done cs, Closed cs → scanFrom .between done (rowChars ts ++ cs) = scanFrom .between (ts.reverse ++ done) cs

namespace Scanned

theorem single (h : t.Legible) : Scanned [t] := by
  intro done cs hc
  simpa [rowChars] using scanFrom_chars_of_closed h hc done

theorem cons (h : t.Legible) (ht : t.isOpenEnded = false) (hs : Scanned ts) : Scanned (t :: ts) := by
  intro done cs hc
  have hrest := hs (t :: done) cs hc
  simp only [rowChars] at hrest
  simp [rowChars, scanFrom_chars_of_not_openEnded h ht, hrest]

theorem append (h : Scanned ts) (h' : Scanned ts') (hc : Closed (rowChars ts')) : Scanned (ts ++ ts') := by
  intro done cs hcs
  have hfirst := h done (rowChars ts' ++ cs) (hc.append hcs)
  have hrest := h' (ts.reverse ++ done) cs hcs
  rw [List.reverse_append, List.append_assoc, ← hrest, ← hfirst]
  simp [rowChars]

theorem scan (h : Scanned ts) : scan (rowChars ts) = some ts := by
  simpa [Json.scan, scanFrom, scanEnd] using h [] [] closed_nil

end Scanned

end BrokerClient.Json
