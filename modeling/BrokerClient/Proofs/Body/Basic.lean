import BrokerClient.Body
import BrokerClient.Proofs.Json.Tree
import BrokerClient.Proofs.Number
import BrokerClient.Proofs.SortedMap
import BrokerClient.Text.Utf8

/-!
# Bodies and their texts

How deep a body nests and what holds of all its parts (`depth`, `Throughout`). The text of every body is a JSON text
(`ofString?_text`), and a body without floats that nests no deeper than a reader allows is read back from it
(`ofText?_text`).
-/
namespace BrokerClient

namespace Body

/-! ## Depth and parts -/

mutual

/-- How many arrays and objects are inside one another. -/
def depth : Body → Nat
  | .array xs => itemsDepth xs + 1
  | .object ms => membersDepth ms + 1
  | _ => 0

def itemsDepth : List Body → Nat
  | [] => 0
  | x :: xs => max x.depth (itemsDepth xs)

def membersDepth : List (String × Body) → Nat
  | [] => 0
  | (_, x) :: ms => max x.depth (membersDepth ms)

end

mutual

/-- A body and all the bodies inside it have the property. -/
def Throughout (P : Body → Prop) : Body → Prop
  | .array xs => P (.array xs) ∧ ItemsThroughout P xs
  | .object ms => P (.object ms) ∧ MembersThroughout P ms
  | b => P b

def ItemsThroughout (P : Body → Prop) : List Body → Prop
  | [] => True
  | x :: xs => x.Throughout P ∧ ItemsThroughout P xs

def MembersThroughout (P : Body → Prop) : List (String × Body) → Prop
  | [] => True
  | (_, x) :: ms => x.Throughout P ∧ MembersThroughout P ms

end

def NoFloat : Body → Prop
  | .number n => n.IsInteger
  | _ => True

/-- Strings have less than 2^32 octets, keys too, and arrays and objects less than 2^32 entries. -/
def IsShort : Body → Prop
  | .string s => (Text.utf8 s).length < 0x100000000
  | .array xs => xs.length < 0x100000000
  | .object ms => ms.length < 0x100000000 ∧ ∀ m ∈ ms, (Text.utf8 m.1).length < 0x100000000
  | _ => True

/-! ## JSON texts -/

mutual

theorem legible_toJson : (b : Body) → b.toJson.Legible
  | .null => trivial
  | .bool _ => trivial
  | .number n => n.wellFormed_toText
  | .string _ => fun _ => Json.isCodePoint_of_mem_unitsOf
  | .array xs => legible_itemsToJson xs
  | .object ms => legible_membersToJson ms

theorem legible_itemsToJson : (xs : List Body) → Json.ItemsLegible (itemsToJson xs)
  | [] => trivial
  | x :: xs => ⟨legible_toJson x, legible_itemsToJson xs⟩

theorem legible_membersToJson : (ms : List (String × Body)) → Json.MembersLegible (membersToJson ms)
  | [] => trivial
  | (_, x) :: ms => ⟨fun _ => Json.isCodePoint_of_mem_unitsOf, legible_toJson x, legible_membersToJson ms⟩

end

theorem ofString?_text (b : Body) : Json.ofString? b.text = some b.toJson :=
  Json.ofString?_text (legible_toJson b)

mutual

theorem nestsWithin_toJson : (b : Body) → (n : Nat) → b.depth ≤ n → b.toJson.nestsWithin n = true
  | .null, _, _ => by simp [toJson, Json.nestsWithin]
  | .bool _, _, _ => by simp [toJson, Json.nestsWithin]
  | .number _, _, _ => by simp [toJson, Json.nestsWithin]
  | .string _, _, _ => by simp [toJson, Json.ofText, Json.nestsWithin]
  | .array _, 0, h => by simp [depth] at h
  | .array xs, n + 1, h => by
      simp only [depth] at h
      exact itemsNestWithin_itemsToJson xs n (by omega)
  | .object _, 0, h => by simp [depth] at h
  | .object ms, n + 1, h => by
      simp only [depth] at h
      exact membersNestWithin_membersToJson ms n (by omega)

theorem itemsNestWithin_itemsToJson :
    (xs : List Body) → (n : Nat) → itemsDepth xs ≤ n → Json.itemsNestWithin n (itemsToJson xs) = true
  | [], _, _ => by simp [itemsToJson, Json.itemsNestWithin]
  | x :: xs, n, h => by
      simp only [itemsDepth] at h
      have hx := nestsWithin_toJson x n (by omega)
      have hxs := itemsNestWithin_itemsToJson xs n (by omega)
      simp [itemsToJson, Json.itemsNestWithin, hx, hxs]

theorem membersNestWithin_membersToJson :
    (ms : List (String × Body)) → (n : Nat) → membersDepth ms ≤ n → Json.membersNestWithin n (membersToJson ms) = true
  | [], _, _ => by simp [membersToJson, Json.membersNestWithin]
  | (_, x) :: ms, n, h => by
      simp only [membersDepth] at h
      have hx := nestsWithin_toJson x n (by omega)
      have hms := membersNestWithin_membersToJson ms n (by omega)
      simp [membersToJson, Json.membersNestWithin, hx, hms]

end

mutual

theorem ofTree?_toJson : (b : Body) → b.Ordered → b.Throughout NoFloat → ofTree? b.toJson = some b
  | .null, _, _ => by simp [toJson, ofTree?]
  | .bool _, _, _ => by simp [toJson, ofTree?]
  | .number _, _, h => by simp [toJson, ofTree?, Number.ofText?_toText h]
  | .string _, _, _ => by simp [toJson, Json.ofText, ofTree?, Json.textOf?_unitsOf]
  | .array xs, ho, h => by
      have hxs := itemsOfTrees?_itemsToJson xs ho h.2
      simp [toJson, ofTree?, hxs]
  | .object ms, ho, h => by
      have hms := membersOfTrees?_membersToJson ms ho.2 h.2
      simp [toJson, ofTree?, hms, Entries.ofPairs_of_increasing ho.1]

theorem itemsOfTrees?_itemsToJson :
    (xs : List Body) → ItemsOrdered xs → ItemsThroughout NoFloat xs → itemsOfTrees? (itemsToJson xs) = some xs
  | [], _, _ => by simp [itemsToJson, itemsOfTrees?]
  | x :: xs, ho, h => by
      have hx := ofTree?_toJson x ho.1 h.1
      have hxs := itemsOfTrees?_itemsToJson xs ho.2 h.2
      simp [itemsToJson, itemsOfTrees?, hx, hxs]

theorem membersOfTrees?_membersToJson : (ms : List (String × Body)) → MembersOrdered ms → MembersThroughout NoFloat ms →
    membersOfTrees? (membersToJson ms) = some ms
  | [], _, _ => by simp [membersToJson, membersOfTrees?]
  | (k, x) :: ms, ho, h => by
      have hx := ofTree?_toJson x ho.1 h.1
      have hms := membersOfTrees?_membersToJson ms ho.2 h.2
      simp [membersToJson, membersOfTrees?, Json.textOf?_unitsOf, hx, hms]

end

theorem ofText?_text {b : Body} (ho : b.Ordered) (hf : b.Throughout NoFloat) (hd : b.depth ≤ Json.depthLimit) :
    ofText? b.text = some b := by
  have hnests := nestsWithin_toJson b Json.depthLimit hd
  simp only [ofText?, ofString?_text, Option.bind_some, ofJson?, hnests, if_true,
    ofTree?_toJson b ho hf]

end Body

end BrokerClient
