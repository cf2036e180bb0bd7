import BrokerClient.Json.Fields
import BrokerClient.Proofs.Json.Tree
import BrokerClient.Proofs.Number

/-!
# Fields of records

An integer that is in range is read back (`natural?_ofNat`, `int64?_ofInt`), and so is a field if no other member has
its name (`field?_of_mem`).
-/
namespace BrokerClient.Json

/-! ## Integers -/

theorem number?_ofNat (n : UInt64) : (ofNat n.toNat).number? = some (.natural n) := by
  have hread := Number.ofText?_toText (n := .natural n) trivial
  rw [Number.toText] at hread
  simp only [number?, ofNat, hread]

theorem number?_ofInt {i : Int64} (h : i < 0) : (ofInt i.toInt).number? = some (.negative i h) := by
  have hread := Number.ofText?_toText (n := .negative i h) trivial
  rw [Number.toText] at hread
  simp only [number?, ofInt, hread]

theorem natural?_of_number? {j : Json} {n : UInt64} {bound : Nat} (hj : j.number? = some (.natural n))
    (h : n.toNat < bound) : j.natural? bound = some n.toNat := by
  simp only [natural?, hj, h, if_true]

theorem natural?_ofNat {n bound : Nat} (hn : n < UInt64.size) (h : n < bound) : (ofNat n).natural? bound = some n := by
  have hword : (UInt64.ofNat n).toNat = n := UInt64.toNat_ofNat_of_lt' hn
  have hread := number?_ofNat (UInt64.ofNat n)
  rw [hword] at hread
  rw [natural?_of_number? hread (hword.symm ▸ h), hword]

theorem int64?_ofInt (i : Int64) : (ofInt i.toInt).int64? = some i := by
  by_cases hi : i < 0
  · simp only [int64?, number?_ofInt hi]
  -- without a sign it is read as a natural number, which has to fit 63 bits
  · have hnonneg : 0 ≤ i.toInt := by
      rw [Int64.lt_iff_toInt_lt] at hi
      exact Int.not_lt.1 hi
    have hlt : i.toInt < 0x8000000000000000 := i.toInt_lt
    have hword : (UInt64.ofNat i.toInt.natAbs).toNat = i.toInt.natAbs := UInt64.toNat_ofNat_of_lt' (by
      unfold UInt64.size
      omega)
    have htext : ofInt i.toInt = ofNat i.toInt.natAbs := by
      simp [ofInt, ofNat, NumberText.ofInt, NumberText.ofNat, Int.not_lt.2 hnonneg]
    have hread := number?_ofNat (UInt64.ofNat i.toInt.natAbs)
    rw [hword] at hread
    have hsmall : i.toInt.natAbs < 0x8000000000000000 := by omega
    have habs : (i.toInt.natAbs : Int) = i.toInt := by omega
    simp only [int64?, htext, hread, hword, hsmall, if_true, habs, Int64.ofInt_toInt]

/-! ## Fields by name -/

variable {ms : List (String × Json)}

/-- The member of an object that a record has under its name. -/
def member (m : String × Json) : Units × Json :=
  (unitsOf m.1, m.2)

theorem keyed?_map_member (ms : List (String × Json)) : keyed? (ms.map member) = some ms := by
  induction ms with
  | nil => rfl
  | cons m ms ih =>
      simp only [keyed?] at ih
      simp [keyed?, member, textOf?_unitsOf, ih]

theorem filter_of_mem {m : String × Json} (hn : (ms.map (·.1)).Nodup) (hm : m ∈ ms) :
    ms.filter (fun e => e.1 = m.1) = [m] := by
  induction ms with
  | nil => cases hm
  | cons m' ms ih =>
      obtain ⟨hfirst, hrest⟩ := List.nodup_cons.1 hn
      rcases List.mem_cons.1 hm with rfl | hm
      · have hnone : ms.filter (fun e => e.1 = m.1) = [] :=
          List.filter_eq_nil_iff.2 fun e he heq => hfirst (List.mem_map.2 ⟨e, he, of_decide_eq_true heq⟩)
        rw [List.filter_cons_of_pos (by simp), hnone]
      · have hne : m'.1 ≠ m.1 := fun heq => hfirst (List.mem_map.2 ⟨m, hm, heq.symm⟩)
        rw [List.filter_cons_of_neg (by simpa using hne), ih hrest hm]

theorem field?_of_mem {m : String × Json} (hn : (ms.map (·.1)).Nodup) (hm : m ∈ ms) :
    field? ms m.1 = some (some m.2) := by
  simp only [field?, filter_of_mem hn hm]

/-- The value of the only member with a name. -/
def memberValue (ms : List (String × Json)) (name : String) : Json :=
  match field? ms name with
  | some (some x) => x
  | _ => .null

theorem memberValue_of_mem {m : String × Json} (hn : (ms.map (·.1)).Nodup) (hm : m ∈ ms) : memberValue ms m.1 = m.2 := by
  simp only [memberValue, field?_of_mem hn hm]

theorem mapM_field? {names : List String} (hn : (ms.map (·.1)).Nodup)
    (h : ∀ name ∈ names, (name, memberValue ms name) ∈ ms) :
    names.mapM (field? ms) = some (names.map fun name => some (memberValue ms name)) := by
  induction names with
  | nil => rfl
  | cons name names ih =>
      obtain ⟨hname, hnames⟩ := List.forall_mem_cons.1 h
      have hfield : field? ms name = some (some (memberValue ms name)) := field?_of_mem hn hname
      simp [hfield, ih hnames]

end BrokerClient.Json
