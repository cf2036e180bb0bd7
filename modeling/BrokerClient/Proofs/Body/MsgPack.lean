import BrokerClient.Body.MsgPack
import BrokerClient.Proofs.Body.Basic

/-!
# MessagePack bodies, read back

A word is read back from its octets (`readWord?_wordOctets`), a length from the head of a string, an array or a map
(`Announces`), and so a body from the octets in front of anything, if its lengths are below 2^32 and just if it nests no
deeper than the reader goes (`read?_octets`).
-/
namespace BrokerClient.Body.MsgPack

open Text (Octets utf8 ofUtf8?)

variable {n width : Nat} {bs rest : Octets}

/-! ## Words -/

theorem length_wordOctets (width n : Nat) : (wordOctets width n).length = width := by
  induction width generalizing n with
  | zero => rfl
  | succ width ih => simp [wordOctets, ih]

theorem ofOctets_wordOctets (h : n < Nat.pow 256 width) : ofOctets (wordOctets width n) = n := by
  induction width generalizing n with
  | zero =>
      have : n = 0 := Nat.lt_one_iff.1 h
      rw [this]
      rfl
  | succ width ih =>
      have hpow : Nat.pow 256 (width + 1) = Nat.pow 256 width * 256 := rfl
      have hdiv := ih (n := n / 256) (by omega)
      simp only [ofOctets] at hdiv
      simp only [wordOctets, ofOctets, List.foldl_append, hdiv, List.foldl_cons, List.foldl_nil, UInt8.toNat_ofNat']
      omega

theorem takeOctets?_append (h : bs.length = n) (rest : Octets) : takeOctets? n (bs ++ rest) = some (bs, rest) := by
  subst h
  simp [takeOctets?]

theorem readWord?_wordOctets (h : n < Nat.pow 256 width) (rest : Octets) :
    readWord? width (wordOctets width n ++ rest) = some (n, rest) := by
  simp only [readWord?, takeOctets?_append (length_wordOctets width n), Option.map_some, ofOctets_wordOctets h]

/-! ## Numbers -/

variable {tag : UInt8} {k : Number}

theorem toNat_ofNat_of_lt (h : n < 0x100) : (UInt8.ofNat n).toNat = n := by
  simpa using h

theorem headOf?_natural (h : n < 0x80) :
    headOf? (UInt8.ofNat n) = some (.value (.number (.natural (UInt64.ofNat n)))) := by
  simp [headOf?, toNat_ofNat_of_lt (Nat.lt_trans h (by decide)), h]

theorem headOf?_negative {i : Int} (hlow : -0x20 ≤ i) (hneg : i < 0) (hk : Number.ofInt? i = some k) :
    headOf? (UInt8.ofNat (0x100 + i).toNat) = some (.value (.number k)) := by
  have ht : (UInt8.ofNat (0x100 + i).toNat).toNat = (0x100 + i).toNat := toNat_ofNat_of_lt (by omega)
  have hi : ((0x100 + i).toNat : Int) - 0x100 = i := by omega
  have h₁ : ¬(0x100 + i).toNat < 0x80 := by omega
  have h₂ : ¬(0x100 + i).toNat < 0x90 := by omega
  have h₃ : ¬(0x100 + i).toNat < 0xA0 := by omega
  have h₄ : ¬(0x100 + i).toNat < 0xC0 := by omega
  have h₅ : 0xE0 ≤ (0x100 + i).toNat := by omega
  simp only [headOf?, ht, h₁, h₂, h₃, h₄, h₅, hi, hk, if_false, if_true, Option.map_some]

theorem read?_value {b : Body} (ht : headOf? tag = some (.value b)) (depth : Nat) (rest : Octets) :
    read? depth (tag :: rest) = some (b, rest) := by
  simp only [read?, ht]

theorem read?_natural (ht : headOf? tag = some (.natural width)) (h : n < Nat.pow 256 width) (depth : Nat)
    (rest : Octets) :
    read? depth (tagged tag width n ++ rest) = some (.number (.natural (UInt64.ofNat n)), rest) := by
  simp [tagged, read?, ht, readWord?_wordOctets h]

theorem read?_signed (ht : headOf? tag = some (.signed width)) (h : n < Nat.pow 256 width)
    (hk : Number.ofInt? (signedOf width n) = some k) (depth : Nat) (rest : Octets) :
    read? depth (tagged tag width n ++ rest) = some (.number k, rest) := by
  simp [tagged, read?, ht, readWord?_wordOctets h, hk]

theorem read?_naturalOctets (hn : n < 0x10000000000000000) (depth : Nat) (rest : Octets) :
    read? depth (naturalOctets n ++ rest) = some (.number (.natural (UInt64.ofNat n)), rest) := by
  unfold naturalOctets
  split
  · next h => exact read?_value (headOf?_natural h) depth rest
  split
  · next h => exact read?_natural rfl h depth rest
  split
  · next h => exact read?_natural rfl h depth rest
  split
  · next h => exact read?_natural rfl h depth rest
  · exact read?_natural rfl hn depth rest

/-- The width that is chosen holds the number in two's complement. -/
theorem read?_negativeOctets {i : Int} (hneg : i < 0) (hlow : -0x8000000000000000 ≤ i) (hk : Number.ofInt? i = some k)
    (depth : Nat) (rest : Octets) : read? depth (negativeOctets i ++ rest) = some (.number k, rest) := by
  unfold negativeOctets
  split
  · next h => exact read?_value (headOf?_negative h hneg hk) depth rest
  split
  · next h =>
    have hs : signedOf 1 (0x100 + i).toNat = i := by simp [signedOf]; omega
    exact read?_signed rfl (show _ < 0x100 by omega) (hs.symm ▸ hk) depth rest
  split
  · next h =>
    have hs : signedOf 2 (0x10000 + i).toNat = i := by simp [signedOf]; omega
    exact read?_signed rfl (show _ < 0x10000 by omega) (hs.symm ▸ hk) depth rest
  split
  · next h =>
    have hs : signedOf 4 (0x100000000 + i).toNat = i := by simp [signedOf]; omega
    exact read?_signed rfl (show _ < 0x100000000 by omega) (hs.symm ▸ hk) depth rest
  · have hs : signedOf 8 (0x10000000000000000 + i).toNat = i := by simp [signedOf]; omega
    exact read?_signed rfl (show _ < 0x10000000000000000 by omega) (hs.symm ▸ hk) depth rest

theorem read?_double {x : Binary64} (hx : x.isFinite) (depth : Nat) (rest : Octets) :
    read? depth (tagged 0xCB 8 x.bits.toNat ++ rest) = some (.number (.float x hx), rest) := by
  have hword : readWord? 8 (wordOctets 8 x.bits.toNat ++ rest) = some (x.bits.toNat, rest) :=
    readWord?_wordOctets x.bits.toNat_lt rest
  have hhead : headOf? 0xCB = some .double := rfl
  simp [tagged, read?, hhead, hword, floatBody, Number.ofFloat?, hx]

theorem read?_numberOctets (k : Number) (depth : Nat) (rest : Octets) :
    read? depth (numberOctets k ++ rest) = some (.number k, rest) := by
  cases k with
  | natural m =>
      have h := read?_naturalOctets m.toNat_lt depth rest
      rwa [UInt64.ofNat_toNat] at h
  | negative i hi =>
      have hneg : i.toInt < 0 := Int64.lt_iff_toInt_lt.1 hi
      exact read?_negativeOctets hneg i.le_toInt (Number.ofInt?_toInt hi) depth rest
  | float x hx => exact read?_double hx depth rest

/-! ## Heads -/

/-- The octets announce a string, an array or a map of the length. -/
def Announces (kind : Nat → Nat → Head) (n : Nat) (os : Octets) : Prop :=
  ∃ tag os' width length, os = tag :: os' ∧ headOf? tag = some (kind width length) ∧
    ∀ rest, readLength? width length (os' ++ rest) = some (n, rest)

theorem headOf?_map (h : n < 0x10) : headOf? (UInt8.ofNat (0x80 + n)) = some (.map 0 n) := by
  have ht : (UInt8.ofNat (0x80 + n)).toNat = 0x80 + n := toNat_ofNat_of_lt (by omega)
  simp only [headOf?, ht]
  rw [if_neg (by omega), if_pos (by omega), Nat.add_sub_cancel_left]

theorem headOf?_array (h : n < 0x10) : headOf? (UInt8.ofNat (0x90 + n)) = some (.array 0 n) := by
  have ht : (UInt8.ofNat (0x90 + n)).toNat = 0x90 + n := toNat_ofNat_of_lt (by omega)
  simp only [headOf?, ht]
  rw [if_neg (by omega), if_neg (by omega), if_pos (by omega), Nat.add_sub_cancel_left]

theorem headOf?_string (h : n < 0x20) : headOf? (UInt8.ofNat (0xA0 + n)) = some (.string 0 n) := by
  have ht : (UInt8.ofNat (0xA0 + n)).toNat = 0xA0 + n := toNat_ofNat_of_lt (by omega)
  simp only [headOf?, ht]
  rw [if_neg (by omega), if_neg (by omega), if_neg (by omega), if_pos (by omega), Nat.add_sub_cancel_left]

namespace Announces

variable {kind : Nat → Nat → Head}

theorem inTag (ht : headOf? tag = some (kind 0 n)) : Announces kind n [tag] :=
  ⟨tag, [], 0, n, rfl, ht, fun _ => rfl⟩

theorem behindTag (ht : headOf? tag = some (kind (width + 1) 0)) (hn : n < Nat.pow 256 (width + 1)) :
    Announces kind n (tagged tag (width + 1) n) :=
  ⟨tag, _, width + 1, 0, rfl, ht, fun rest => readWord?_wordOctets hn rest⟩

theorem mapHead (h : n < 0x100000000) : Announces .map n (mapHead n) := by
  unfold MsgPack.mapHead
  split
  · next hn => exact .inTag (headOf?_map hn)
  split
  · next hn => exact .behindTag rfl hn
  · exact .behindTag rfl h

theorem arrayHead (h : n < 0x100000000) : Announces .array n (arrayHead n) := by
  unfold MsgPack.arrayHead
  split
  · next hn => exact .inTag (headOf?_array hn)
  split
  · next hn => exact .behindTag rfl hn
  · exact .behindTag rfl h

theorem stringHead {s : String} (h : (utf8 s).length < 0x100000000) :
    ∃ head, stringOctets s = head ++ utf8 s ∧ Announces .string (utf8 s).length head := by
  refine ⟨_, rfl, ?_⟩
  split
  · next hn => exact .inTag (headOf?_string hn)
  split
  · next hn => exact .behindTag rfl hn
  split
  · next hn => exact .behindTag rfl hn
  · exact .behindTag rfl h

end Announces

/-! ## Strings -/

variable {s : String}

theorem readString?_of_readLength? {os rest : Octets}
    (h : readLength? width n os = some ((utf8 s).length, utf8 s ++ rest)) : readString? width n os = some (s, rest) := by
  simp [readString?, h, takeOctets?_append rfl rest, Text.ofUtf8?_utf8]

theorem readKey?_stringOctets (h : (utf8 s).length < 0x100000000) (rest : Octets) :
    readKey? (stringOctets s ++ rest) = some (s, rest) := by
  obtain ⟨head, hs, tag, os, width, length, rfl, ht, hlength⟩ := Announces.stringHead h
  rw [hs, List.append_assoc, List.cons_append]
  simp only [readKey?, ht]
  exact readString?_of_readLength? (hlength (utf8 s ++ rest))

theorem read?_stringOctets (h : (utf8 s).length < 0x100000000) (depth : Nat) (rest : Octets) :
    read? depth (stringOctets s ++ rest) = some (.string s, rest) := by
  obtain ⟨head, hs, tag, os, width, length, rfl, ht, hlength⟩ := Announces.stringHead h
  rw [hs, List.append_assoc, List.cons_append]
  simp [read?, ht, readString?_of_readLength? (hlength (utf8 s ++ rest))]

/-! ## Bodies -/

mutual

theorem read?_octets : (b : Body) → b.Ordered → b.Throughout IsShort → (depth : Nat) → (rest : Octets) →
    read? depth (octets b ++ rest) = if b.depth ≤ depth then some (b, rest) else none
  | .null, _, _, depth, rest => (read?_value rfl depth rest).trans (if_pos (Nat.zero_le depth)).symm
  | .bool false, _, _, depth, rest => (read?_value rfl depth rest).trans (if_pos (Nat.zero_le depth)).symm
  | .bool true, _, _, depth, rest => (read?_value rfl depth rest).trans (if_pos (Nat.zero_le depth)).symm
  | .number k, _, _, depth, rest => (read?_numberOctets k depth rest).trans (if_pos (Nat.zero_le depth)).symm
  | .string _, _, hs, depth, rest => (read?_stringOctets hs depth rest).trans (if_pos (Nat.zero_le depth)).symm
  | .array xs, ho, hs, depth, rest => by
      obtain ⟨tag, os, width, length, hhead, ht, hlength⟩ := Announces.arrayHead hs.1
      cases depth with
      | zero => simp [octets, hhead, read?, ht, Body.depth]
      | succ depth =>
          have hxs := readItems?_itemsOctets xs ho hs.2 depth [] rest
          by_cases hd : itemsDepth xs ≤ depth <;> simp [octets, hhead, read?, ht, hlength, hxs, Body.depth, hd]
  | .object ms, ho, hs, depth, rest => by
      obtain ⟨tag, os, width, length, hhead, ht, hlength⟩ := Announces.mapHead hs.1.1
      cases depth with
      | zero => simp [octets, hhead, read?, ht, Body.depth]
      | succ depth =>
          have hms := readMembers?_membersOctets ms ho.2 hs.2 hs.1.2 depth [] rest
          have hpairs := Entries.ofPairs_of_increasing ho.1
          by_cases hd : membersDepth ms ≤ depth <;>
            simp [octets, hhead, read?, ht, hlength, hms, hpairs, Body.depth, hd]

theorem readItems?_itemsOctets : (xs : List Body) → ItemsOrdered xs → ItemsThroughout IsShort xs → (depth : Nat) →
    (done : List Body) → (rest : Octets) →
    readItems? (read? depth) xs.length done (itemsOctets xs ++ rest) =
      if itemsDepth xs ≤ depth then some (done.reverse ++ xs, rest) else none
  | [], _, _, depth, done, rest => by simp [itemsOctets, readItems?, itemsDepth]
  | x :: xs, ho, hs, depth, done, rest => by
      have hx := read?_octets x ho.1 hs.1 depth (itemsOctets xs ++ rest)
      have hxs := readItems?_itemsOctets xs ho.2 hs.2 depth (x :: done) rest
      simp only [itemsDepth, Nat.max_le]
      by_cases hd : x.depth ≤ depth <;> simp [itemsOctets, readItems?, hx, hxs, hd]

theorem readMembers?_membersOctets : (ms : List (String × Body)) → MembersOrdered ms → MembersThroughout IsShort ms →
    (∀ m ∈ ms, (utf8 m.1).length < 0x100000000) → (depth : Nat) → (done : List (String × Body)) → (rest : Octets) →
    readMembers? (read? depth) ms.length done (membersOctets ms ++ rest) =
      if membersDepth ms ≤ depth then some (done.reverse ++ ms, rest) else none
  | [], _, _, _, depth, done, rest => by simp [membersOctets, readMembers?, membersDepth]
  | (k, x) :: ms, ho, hs, hk, depth, done, rest => by
      obtain ⟨hkey, hkeys⟩ := List.forall_mem_cons.1 hk
      have hread := readKey?_stringOctets hkey (octets x ++ (membersOctets ms ++ rest))
      have hx := read?_octets x ho.1 hs.1 depth (membersOctets ms ++ rest)
      have hms := readMembers?_membersOctets ms ho.2 hs.2 hkeys depth ((k, x) :: done) rest
      simp only [membersDepth, Nat.max_le]
      by_cases hd : x.depth ≤ depth <;> simp [membersOctets, readMembers?, hread, hx, hms, hd]

end

/-- A body is read back just if it nests no deeper than the reader goes. -/
theorem ofOctets?_octets {b : Body} (ho : b.Ordered) (hs : b.Throughout IsShort) :
    ofOctets? (octets b) = if b.depth ≤ depthLimit then some b else none := by
  have h := read?_octets b ho hs depthLimit []
  rw [List.append_nil] at h
  rw [ofOctets?, h]
  split <;> rfl

end BrokerClient.Body.MsgPack
