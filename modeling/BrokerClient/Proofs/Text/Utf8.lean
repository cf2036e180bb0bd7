import BrokerClient.Text.Utf8

/-!
# Octets of joined texts

The octets of a text are those of its characters one after another (`utf8_eq`). A text whose octets begin with those
of another one begins with that one itself (`exists_append_of_utf8`). Each character takes one to four octets, an ASCII
character one (`length_utf8_le`, `length_utf8_of_ascii`).
-/
namespace BrokerClient.Text

theorem utf8_eq (s : String) : utf8 s = s.toList.flatMap String.utf8EncodeChar := by
  simp [utf8, ← String.utf8Encode_toList, List.utf8Encode]

theorem utf8_append (s s' : String) : utf8 (s ++ s') = utf8 s ++ utf8 s' := by
  simp only [utf8_eq, String.toList_append, List.flatMap_append]

theorem exists_append_of_utf8 {s s' : String} {bs : Octets} (h : utf8 s ++ bs = utf8 s') :
    ∃ s'', s' = s ++ s'' ∧ utf8 s'' = bs := by
  have hencode : s.toList.utf8Encode ++ bs.toByteArray = s'.toList.utf8Encode := by
    simpa only [List.utf8Encode, ← utf8_eq, ← List.toByteArray_append] using congrArg List.toByteArray h
  obtain ⟨cs, hcs⟩ := List.isPrefix_of_utf8Encode_append_eq_utf8Encode _ hencode
  have hs' : s' = s ++ String.ofList cs := by
    rw [← String.toList_inj, String.toList_append, String.toList_ofList, hcs]
  rw [hs', utf8_append] at h
  exact ⟨String.ofList cs, hs', (List.append_cancel_left h).symm⟩

/-! ## Lengths -/

theorem length_utf8_le (s : String) : (utf8 s).length ≤ 4 * s.length := by
  rw [utf8_eq, ← String.length_toList]
  induction s.toList with
  | nil => exact Nat.le_refl 0
  | cons c cs ih =>
      have hc := c.utf8Size_le_four
      rw [List.flatMap_cons, List.length_append, String.length_utf8EncodeChar, List.length_cons]
      omega

theorem length_utf8_of_forall {s : String} {n : Nat} (h : ∀ c ∈ s.toList, c.utf8Size = n) :
    (utf8 s).length = n * s.length := by
  rw [utf8_eq, ← String.length_toList]
  generalize s.toList = cs at h
  induction cs with
  | nil => rfl
  | cons c cs ih =>
      rw [List.flatMap_cons, List.length_append, String.length_utf8EncodeChar, h c List.mem_cons_self,
        ih fun c hc => h c (List.mem_cons_of_mem _ hc), List.length_cons, Nat.mul_succ, Nat.add_comm]

theorem length_utf8_of_ascii {s : String} (h : ∀ c ∈ s.toList, c.toNat < 128) : (utf8 s).length = s.length := by
  have hsize : ∀ c ∈ s.toList, c.utf8Size = 1 := by
    intro c hc
    rw [Char.utf8Size_eq_one_iff, UInt32.le_iff_toNat_le]
    exact Nat.le_of_lt_succ (h c hc)
  rw [length_utf8_of_forall hsize, Nat.one_mul]

end BrokerClient.Text
