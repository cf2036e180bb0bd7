import BrokerClient.HeaderValue.Json
import BrokerClient.Proofs.HeaderValue.Basic
import BrokerClient.Proofs.Json.Rearranged
import BrokerClient.Proofs.SortedMap

/-!
# Header values, written and read back

Every value can be written as a JSON text (`legible_toJson`), and one without floats is read back from its tree, in
whatever order the members of objects come (`ofJson?_of_rearranged`).
-/
namespace BrokerClient.HeaderValue

open Json (ofMembers Rearranged ItemsRearranged MembersRearranged)

/-! ## Writing -/

theorem legible_octetsToJson (bs : Text.Octets) : (octetsToJson bs).Legible := by
  change Json.ItemsLegible (bs.map fun b => .ofNat b.toNat)
  induction bs with
  | nil => trivial
  | cons b bs ih => exact ⟨Json.legible_ofNat b.toNat, ih⟩

theorem legible_floatToJson (x : Binary64) : (floatToJson x).Legible := by
  unfold floatToJson
  split
  · exact Number.wellFormed_floatText x
  · trivial

theorem legible_ofMember {kind : String} {content : Json} (h : content.Legible) : (ofMembers [(kind, content)]).Legible :=
  Json.legible_ofMembers (by simpa using h)

mutual

theorem legible_toJson : (v : HeaderValue) → v.toJson.Legible
  | .void => Json.legible_ofText _
  | .bool _ => legible_ofMember trivial
  | .int i => legible_ofMember (Json.legible_ofInt i.toInt)
  | .float x => legible_ofMember (legible_floatToJson x)
  | .string s => legible_ofMember (Json.legible_ofText s)
  | .bytes bs => legible_ofMember (legible_octetsToJson bs)
  | .array xs => legible_ofMember (legible_itemsToJson xs)
  | .table es => legible_ofMember (legible_entriesToJson es)

theorem legible_itemsToJson : (xs : List HeaderValue) → Json.ItemsLegible (itemsToJson xs)
  | [] => trivial
  | x :: xs => ⟨legible_toJson x, legible_itemsToJson xs⟩

theorem legible_entriesToJson : (es : List (String × HeaderValue)) → Json.MembersLegible (entriesToJson es)
  | [] => trivial
  | (_, x) :: es => ⟨fun _ => Json.isCodePoint_of_mem_unitsOf, legible_toJson x, legible_entriesToJson es⟩

end

/-! ## Objects with one member -/

theorem ofJson?_array (ys : List Json) :
    ofJson? (ofMembers [("Array", .array ys)]) = (itemsOfJson? ys).map .array := by
  simp [ofMembers, ofJson?, Json.textOf?_unitsOf]

theorem ofJson?_table (ms : List (Json.Units × Json)) :
    ofJson? (ofMembers [("Table", .object ms)]) = (entriesOfJson? ms).map fun ps => .table (Entries.ofPairs ps) := by
  simp [ofMembers, ofJson?, Json.textOf?_unitsOf]

theorem ofJson?_bytes (ys : List Json) :
    ofJson? (ofMembers [("Bytes", .array ys)]) = (octetsOfJson? (.array ys)).map .bytes := by
  simp [ofMembers, ofJson?, Json.textOf?_unitsOf, simpleOfJson?]

theorem ofJson?_int (i : Int64) : ofJson? (ofMembers [("Int", .ofInt i.toInt)]) = some (.int i) := by
  have hread := Json.int64?_ofInt i
  simp only [Json.ofInt] at hread
  simp [ofMembers, Json.ofInt, ofJson?, Json.textOf?_unitsOf, simpleOfJson?, hread]

/-! ## Reading values -/

variable {j : Json}

theorem octetsOfJson?_of_rearranged {bs : Text.Octets} {ys : List Json}
    (h : ItemsRearranged (bs.map fun b => .ofNat b.toNat) ys) : octetsOfJson? (.array ys) = some bs := by
  induction bs generalizing ys with
  | nil =>
      cases h
      rfl
  | cons b bs ih =>
      cases h with
      | cons hx hs =>
          have hb : b.toNat < 256 := b.toNat_lt
          have hread := Json.natural?_ofNat (Nat.lt_trans hb (by decide)) hb
          have hrest := ih hs
          simp only [octetsOfJson?] at hrest
          simp [octetsOfJson?, hx.eq_nat, hread, hrest]

/-- The member of an object is read as the entry. -/
def ReadsEntry (m : Json.Units × Json) (e : String × HeaderValue) : Prop :=
  Json.textOf? m.1 = some e.1 ∧ ofJson? m.2 = some e.2

theorem entriesOfJson?_cons_eq_some {m : Json.Units × Json} {ms : List (Json.Units × Json)}
    {es : List (String × HeaderValue)} :
    entriesOfJson? (m :: ms) = some es ↔
      ∃ e rest, ReadsEntry m e ∧ entriesOfJson? ms = some rest ∧ es = e :: rest := by
  obtain ⟨k, x⟩ := m
  simp only [entriesOfJson?, ReadsEntry]
  constructor
  · intro h
    split at h
    · next hk hx hms =>
      exact ⟨_, _, ⟨hk, hx⟩, hms, (Option.some.inj h).symm⟩
    · cases h
  · rintro ⟨e, rest, ⟨hk, hx⟩, hms, rfl⟩
    simp only [hk, hx, hms]

/-- Entries that are read are read in any other order. -/
theorem entriesOfJson?_of_perm {ms ns : List (Json.Units × Json)} (hp : ms.Perm ns) {es : List (String × HeaderValue)}
    (h : entriesOfJson? ms = some es) : ∃ es', es.Perm es' ∧ entriesOfJson? ns = some es' := by
  induction hp generalizing es with
  | nil => exact ⟨es, .refl es, h⟩
  | cons m _ ih =>
      obtain ⟨e, rest, he, hrest, rfl⟩ := entriesOfJson?_cons_eq_some.1 h
      obtain ⟨rest', hperm, hrest'⟩ := ih hrest
      exact ⟨e :: rest', hperm.cons e, entriesOfJson?_cons_eq_some.2 ⟨e, rest', he, hrest', rfl⟩⟩
  | swap m m' ms =>
      obtain ⟨e', _, he', hmore, rfl⟩ := entriesOfJson?_cons_eq_some.1 h
      obtain ⟨e, rest, he, hrest, rfl⟩ := entriesOfJson?_cons_eq_some.1 hmore
      have hfirst := entriesOfJson?_cons_eq_some.2 ⟨e', rest, he', hrest, rfl⟩
      exact ⟨_, .swap e e' rest, entriesOfJson?_cons_eq_some.2 ⟨e, _, he, hfirst, rfl⟩⟩
  | trans _ _ ih ih' =>
      obtain ⟨es', hperm, hread⟩ := ih h
      obtain ⟨es'', hperm', hread'⟩ := ih' hread
      exact ⟨es'', hperm.trans hperm', hread'⟩

mutual

theorem ofJson?_of_rearranged : (v : HeaderValue) → v.Ordered → v.Throughout NoFloat → ∀ {j}, v.toJson.Rearranged j →
    ofJson? j = some v
  | .void, _, _, _, h => by
      rw [toJson] at h
      rw [h.eq_text]
      simp [Json.ofText, ofJson?, Json.textOf?_unitsOf]
  | .bool b, _, _, _, h => by
      rw [toJson] at h
      obtain ⟨y, rfl, hy⟩ := h.exists_member
      rw [hy.eq_bool]
      simp [ofMembers, ofJson?, Json.textOf?_unitsOf, simpleOfJson?]
  | .int i, _, _, _, h => by
      rw [toJson] at h
      obtain ⟨y, rfl, hy⟩ := h.exists_member
      rw [hy.eq_int, ofJson?_int]
  | .string s, _, _, _, h => by
      rw [toJson] at h
      obtain ⟨y, rfl, hy⟩ := h.exists_member
      rw [hy.eq_text]
      simp [ofMembers, Json.ofText, ofJson?, Json.textOf?_unitsOf, simpleOfJson?, Json.text?]
  | .bytes bs, _, _, _, h => by
      rw [toJson] at h
      obtain ⟨y, rfl, hy⟩ := h.exists_member
      obtain ⟨ys, rfl, hs⟩ := hy.exists_items
      rw [ofJson?_bytes, octetsOfJson?_of_rearranged hs]
      rfl
  | .array xs, ho, hf, _, h => by
      rw [toJson] at h
      obtain ⟨y, rfl, hy⟩ := h.exists_member
      obtain ⟨ys, rfl, hs⟩ := hy.exists_items
      rw [ofJson?_array, itemsOfJson?_of_rearranged xs ho hf.2 hs]
      rfl
  | .table es, ho, hf, _, h => by
      rw [toJson] at h
      obtain ⟨y, rfl, hy⟩ := h.exists_member
      obtain ⟨ns, ns', rfl, hs, hp⟩ := hy.exists_members
      obtain ⟨es', hes', hread⟩ := entriesOfJson?_of_perm hp (entriesOfJson?_of_rearranged es ho.2 hf.2 hs)
      rw [ofJson?_table, hread, Option.map_some, Entries.ofPairs_of_perm ho.1 hes']

theorem itemsOfJson?_of_rearranged : (xs : List HeaderValue) → ItemsOrdered xs → ItemsThroughout NoFloat xs → ∀ {ys},
    ItemsRearranged (itemsToJson xs) ys → itemsOfJson? ys = some xs
  | [], _, _, _, h => by
      cases h
      rfl
  | x :: xs, ho, hf, _, h => by
      cases h with
      | cons hx hs =>
          have hfirst := ofJson?_of_rearranged x ho.1 hf.1 hx
          have hrest := itemsOfJson?_of_rearranged xs ho.2 hf.2 hs
          simp only [itemsOfJson?, hfirst, hrest]

theorem entriesOfJson?_of_rearranged : (es : List (String × HeaderValue)) → EntriesOrdered es →
    EntriesThroughout NoFloat es → ∀ {ns}, MembersRearranged (entriesToJson es) ns → entriesOfJson? ns = some es
  | [], _, _, _, h => by
      cases h
      rfl
  | (k, x) :: es, ho, hf, _, h => by
      cases h with
      | cons key hx hs =>
          have hfirst := ofJson?_of_rearranged x ho.1 hf.1 hx
          have hrest := entriesOfJson?_of_rearranged es ho.2 hf.2 hs
          simp only [entriesOfJson?, Json.textOf?_unitsOf, hfirst, hrest]

end

end BrokerClient.HeaderValue
