import BrokerClient.Json.Tree
import BrokerClient.Proofs.Json.Token

/-!
# Trees, read back

The tokens of a tree are read as the tree (`ofTokens?_tokens`) and are found again in its characters
(`scanned_tokens`), so a tree is read back from its text (`ofString?_text`), and texts from the units of its strings
(`textOf?_unitsOf`).
-/
namespace BrokerClient.Json

/-! ## What can be written -/

mutual

/-- The numbers and strings of a tree can be written. -/
def Legible : Json → Prop
  | .number n => n.WellFormed
  | .string us => ∀ u ∈ us, IsCodePoint u
  | .array xs => ItemsLegible xs
  | .object ms => MembersLegible ms
  | _ => True

def ItemsLegible : List Json → Prop
  | [] => True
  | x :: xs => x.Legible ∧ ItemsLegible xs

def MembersLegible : List (Units × Json) → Prop
  | [] => True
  | (k, x) :: ms => (∀ u ∈ k, IsCodePoint u) ∧ x.Legible ∧ MembersLegible ms

end

/-! ## Tokens of a tree -/

theorem closed_itemsTokens (xs : List Json) : Closed (rowChars (itemsTokens xs)) := by
  cases xs with
  | nil => intro c hc; cases hc; decide
  | cons x xs => intro c hc; cases hc; decide

theorem closed_membersTokens (ms : List (Units × Json)) : Closed (rowChars (membersTokens ms)) := by
  cases ms with
  | nil => intro c hc; cases hc; decide
  | cons m ms => intro c hc; cases hc; decide

mutual

theorem scanned_tokens : (j : Json) → j.Legible → Scanned j.tokens
  | .null, _ => .single trivial
  | .bool _, _ => .single trivial
  | .number _, h => .single h
  | .string _, h => .single h
  | .array [], _ => .cons trivial rfl (.single trivial)
  | .array (x :: xs), h =>
      .cons trivial rfl ((scanned_tokens x h.1).append (scanned_itemsTokens xs h.2) (closed_itemsTokens xs))
  | .object [], _ => .cons trivial rfl (.single trivial)
  | .object ((_, x) :: ms), h =>
      .cons trivial rfl (.cons h.1 rfl (.cons trivial rfl
        ((scanned_tokens x h.2.1).append (scanned_membersTokens ms h.2.2) (closed_membersTokens ms))))

theorem scanned_itemsTokens : (xs : List Json) → ItemsLegible xs → Scanned (itemsTokens xs)
  | [], _ => .single trivial
  | x :: xs, h =>
      .cons trivial rfl ((scanned_tokens x h.1).append (scanned_itemsTokens xs h.2) (closed_itemsTokens xs))

theorem scanned_membersTokens : (ms : List (Units × Json)) → MembersLegible ms → Scanned (membersTokens ms)
  | [], _ => .single trivial
  | (_, x) :: ms, h =>
      .cons trivial rfl (.cons h.1 rfl (.cons trivial rfl
        ((scanned_tokens x h.2.1).append (scanned_membersTokens ms h.2.2) (closed_membersTokens ms))))

end

/-! ## Reading the tokens -/

theorem exists_tokens_eq_cons (j : Json) : ∃ t ts, j.tokens = t :: ts ∧ t ≠ .closeArray := by
  match j with
  | .null | .bool _ | .number _ | .string _ | .array [] | .array (_ :: _) | .object [] | .object (_ :: _) =>
      exact ⟨_, _, rfl, by simp⟩

/-- The first item of an array begins as any value does. -/
theorem run_arrayStart (j : Json) (fs : List Frame) (ts : List Token) :
    Reading.run (.arrayStart fs) (j.tokens ++ ts) = Reading.run (.value (.array [] :: fs)) (j.tokens ++ ts) := by
  obtain ⟨t, ts', ht, hne⟩ := exists_tokens_eq_cons j
  have hstep : (Reading.arrayStart fs).step t = Reading.begin (.array [] :: fs) t := by
    cases t <;> first | rfl | exact absurd rfl hne
  simp only [ht, List.cons_append, Reading.run, hstep]
  rfl

mutual

theorem run_tokens : (j : Json) → ∀ fs ts, Reading.run (.value fs) (j.tokens ++ ts) = Reading.run (.done j fs) ts
  | .null, _, _ => rfl
  | .bool _, _, _ => rfl
  | .number _, _, _ => rfl
  | .string _, _, _ => rfl
  | .array [], _, _ => rfl
  | .array (x :: xs), fs, ts => by
      have hx := run_tokens x (.array [] :: fs) (itemsTokens xs ++ ts)
      have hxs := run_itemsTokens xs x [] fs ts
      simp only [tokens, List.cons_append, List.append_assoc]
      change Reading.run (.arrayStart fs) (x.tokens ++ (itemsTokens xs ++ ts)) = _
      rw [run_arrayStart, hx, hxs]
      rfl
  | .object [], _, _ => rfl
  | .object ((k, x) :: ms), fs, ts => by
      have hx := run_tokens x (.object [] k :: fs) (membersTokens ms ++ ts)
      have hms := run_membersTokens ms k x [] fs ts
      simp only [tokens, List.cons_append, List.append_assoc]
      change Reading.run (.value (.object [] k :: fs)) (x.tokens ++ (membersTokens ms ++ ts)) = _
      rw [hx, hms]
      rfl

theorem run_itemsTokens : (xs : List Json) → ∀ v done fs ts,
    Reading.run (.done v (.array done :: fs)) (itemsTokens xs ++ ts) =
      Reading.run (.done (.array ((v :: done).reverse ++ xs)) fs) ts
  | [], v, done, fs, ts => by
      rw [List.append_nil]
      rfl
  | x :: xs, v, done, fs, ts => by
      have hx := run_tokens x (.array (v :: done) :: fs) (itemsTokens xs ++ ts)
      have hxs := run_itemsTokens xs x (v :: done) fs ts
      simp only [itemsTokens, List.cons_append, List.append_assoc]
      change Reading.run (.value (.array (v :: done) :: fs)) (x.tokens ++ (itemsTokens xs ++ ts)) = _
      rw [hx, hxs, List.reverse_cons, List.append_assoc]
      rfl

theorem run_membersTokens : (ms : List (Units × Json)) → ∀ k v done fs ts,
    Reading.run (.done v (.object done k :: fs)) (membersTokens ms ++ ts) =
      Reading.run (.done (.object (((k, v) :: done).reverse ++ ms)) fs) ts
  | [], k, v, done, fs, ts => by
      rw [List.append_nil]
      rfl
  | (l, x) :: ms, k, v, done, fs, ts => by
      have hx := run_tokens x (.object ((k, v) :: done) l :: fs) (membersTokens ms ++ ts)
      have hms := run_membersTokens ms l x ((k, v) :: done) fs ts
      simp only [membersTokens, List.cons_append, List.append_assoc]
      change Reading.run (.value (.object ((k, v) :: done) l :: fs)) (x.tokens ++ (membersTokens ms ++ ts)) = _
      rw [hx, hms, List.reverse_cons, List.append_assoc]
      rfl

end

theorem ofTokens?_tokens (j : Json) : ofTokens? j.tokens = some j := by
  have h := run_tokens j [] []
  rw [List.append_nil] at h
  exact h

theorem ofString?_text {j : Json} (h : j.Legible) : ofString? j.text = some j := by
  have hscan := (scanned_tokens j h).scan
  simp only [rowChars] at hscan
  simp only [ofString?, ofChars?, text, chars, String.toList_ofList, hscan, Option.bind_some, ofTokens?_tokens]

/-! ## Texts in strings -/

theorem textChars?_map_toNat (cs : List Char) : textChars? (cs.map Char.toNat) = some cs := by
  induction cs with
  | nil => rfl
  | cons c cs ih =>
      have hv : c.toNat.isValidChar := c.valid
      cases cs with
      | nil => exact dif_pos hv
      | cons d ds =>
          have hstep : textChars? ((c :: d :: ds).map Char.toNat) =
              (textChars? ((d :: ds).map Char.toNat)).map (c :: ·) := dif_pos hv
          rw [hstep, ih, Option.map_some]

theorem textOf?_unitsOf (s : String) : textOf? (unitsOf s) = some s := by
  simp [textOf?, unitsOf, textChars?_map_toNat]

theorem isCodePoint_of_mem_unitsOf {s : String} {u : Nat} (h : u ∈ unitsOf s) : IsCodePoint u := by
  obtain ⟨c, -, rfl⟩ := List.mem_map.1 h
  have hv : c.toNat.isValidChar := c.valid
  simp only [Nat.isValidChar] at hv
  simp only [IsCodePoint]
  omega

end BrokerClient.Json
