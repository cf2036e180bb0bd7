import BrokerClient.Number
import BrokerClient.Proofs.Binary64.Shortest

/-!
# Numbers and their texts

An integer of 64 bits is made again of its value (`ofInt?_toNat`, `ofInt?_toInt`) and read back from its text
(`ofText?_toText`). The text of every number, floats too, has the parts of a JSON number (`wellFormed_toText`).
-/
namespace BrokerClient.Number

open Json.NumberText

def IsInteger : Number → Prop
  | .float .. => False
  | _ => True

theorem ofInt?_toNat (n : UInt64) : ofInt? n.toNat = some (.natural n) := by
  have hlt : (n.toNat : Int) < 0x10000000000000000 := by
    have := n.toNat_lt
    omega
  simp [ofInt?, hlt]

theorem ofInt?_toInt {i : Int64} (h : i < 0) : ofInt? i.toInt = some (.negative i h) := by
  have hneg : i.toInt < 0 := Int64.lt_iff_toInt_lt.1 h
  have hle : -0x8000000000000000 ≤ i.toInt := i.le_toInt
  simp [ofInt?, hneg, h, hle]

theorem ofText?_toText {n : Number} (h : n.IsInteger) : ofText? n.toText = some n := by
  cases n with
  | natural n =>
      simp [toText, Json.NumberText.ofNat, ofText?, ofDigits_digitsOf, ofInt?_toNat]
  | negative i hi =>
      have hneg : i.toInt < 0 := Int64.lt_iff_toInt_lt.1 hi
      have hne : i.toInt.natAbs ≠ 0 := by omega
      have habs : -(i.toInt.natAbs : Int) = i.toInt := by omega
      simp only [toText, Json.NumberText.ofInt, ofText?, ofDigits_digitsOf, hneg, hne, decide_true, if_true, and_false,
        not_false_eq_true, and_self, habs, ofInt?_toInt hi]
  | float => cases h

/-! ## Texts of all numbers -/

theorem lt_of_mem_digitValues {cs : List Char} (h : ∀ c ∈ cs, c.isDigit = true) :
    ∀ d ∈ cs.map (fun c => c.toNat - '0'.toNat), d < 10 := by
  intro d hd
  obtain ⟨c, hc, rfl⟩ := List.mem_map.1 hd
  have := Char.isDigit_iff_toNat.1 (h c hc)
  simp only [Char.reduceToNat] at this ⊢
  omega

theorem isWhole_digitValues {c : Char} {cs : List Char} (hc : c.isDigit = true) (h : c = '0' → cs = []) :
    isWhole ((c :: cs).map (fun c => c.toNat - '0'.toNat)) = true := by
  cases cs with
  | nil => rfl
  | cons c' cs =>
      have hne : c ≠ '0' := fun hz => List.cons_ne_nil c' cs (h hz)
      have hcode : c.toNat ≠ '0'.toNat := fun heq => hne (Char.toNat_inj.1 heq)
      have := Char.isDigit_iff_toNat.1 hc
      simp only [Char.reduceToNat] at this hcode
      simp only [List.map_cons, isWhole, Char.reduceToNat, bne_iff_ne, ne_eq]
      omega

/-- A fraction without digits is written as a zero. -/
theorem wellFormed_point {negative : Bool} {whole : List Nat} {fraction : List Char} (hw : isWhole whole = true)
    (hd : ∀ d ∈ whole, d < 10) (hf : ∀ c ∈ fraction, c.isDigit = true) :
    Json.NumberText.WellFormed ⟨negative, whole,
      if fraction = [] then [0] else fraction.map (fun c => c.toNat - '0'.toNat), none⟩ := by
  refine ⟨hw, hd, ?_, by simp⟩
  simp only
  split
  · simp
  · exact lt_of_mem_digitValues hf

theorem wellFormed_floatText (x : Binary64) : (floatText x).WellFormed := by
  obtain ⟨hdigits, c, cs, hcs, hzero⟩ := x.leads_shortest .even
  have hfirst : c.isDigit = true := hdigits c (hcs ▸ List.mem_cons_self)
  have hpadded (n : Nat) : ∀ c ∈ List.replicate n '0', c.isDigit = true := by
    intro c hc
    rw [List.eq_of_mem_replicate hc]
    rfl
  unfold floatText
  split
  · exact ⟨rfl, by simp, by simp, by simp⟩
  simp only
  split
  · by_cases he : (x.shortest .even).exponent < 0
    · simp only [he, if_true]
      exact wellFormed_point rfl (by simp) (List.forall_mem_append.2 ⟨hpadded _, hdigits⟩)
    · -- A first digit that is zero is the only one in front of the point.
      simp only [he, if_false]
      refine wellFormed_point ?_ (lt_of_mem_digitValues fun c hc => ?_) fun c hc => hdigits c (List.mem_of_mem_drop hc)
      · simp only [hcs, List.cons_append, List.take_succ_cons]
        refine isWhole_digitValues hfirst fun hc => ?_
        rw [hzero hc]
        rfl
      · exact List.forall_mem_append.2 ⟨hdigits, hpadded _⟩ c (List.mem_of_mem_take hc)
  · refine ⟨?_, lt_of_mem_digitValues fun c hc => hdigits c (List.mem_of_mem_take hc),
      lt_of_mem_digitValues fun c hc => hdigits c (List.mem_of_mem_drop hc), fun e he => ?_⟩
    · simp only [hcs, List.take_succ_cons, List.take_zero]
      exact isWhole_digitValues hfirst fun _ => rfl
    · cases he
      exact ⟨digitsOf_ne_nil _, fun d => lt_of_mem_digitsOf⟩

theorem wellFormed_toText (n : Number) : n.toText.WellFormed := by
  cases n with
  | natural => exact wellFormed_integer ..
  | negative => exact wellFormed_integer ..
  | float x => exact wellFormed_floatText x

end BrokerClient.Number
