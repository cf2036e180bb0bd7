/-!
# Maps with text keys

A map is its list of entries in increasing order of the keys, by code point. One key has one
entry, so equal maps are equal lists, and the order in which a map was filled cannot be seen.

`Entries` holds the operations on lists of entries; `SortedMap` carries the order as a field. Trees
that hold maps inside themselves use `Entries` directly.
-/
namespace BrokerClient

universe u v

/-- The keys increase from entry to entry. -/
def Entries.Increasing {α : Type u} (es : List (String × α)) : Prop :=
  es.Pairwise (fun a b => a.1 < b.1)

instance {α : Type u} (es : List (String × α)) : Decidable (Entries.Increasing es) :=
  inferInstanceAs (Decidable (es.Pairwise (fun a b => a.1 < b.1)))

namespace Entries

variable {α : Type u} {β : Type v}

/-- Puts the entry in its place, over an entry with the same key. -/
def insert (key : String) (value : α) : List (String × α) → List (String × α)
  | [] => [(key, value)]
  | (k, w) :: rest =>
    if key < k then (key, value) :: (k, w) :: rest
    else if key = k then (key, value) :: rest
    else (k, w) :: insert key value rest

def erase (key : String) (es : List (String × α)) : List (String × α) :=
  es.filter (fun e => e.1 ≠ key)

def get? (es : List (String × α)) (key : String) : Option α :=
  (es.find? (fun e => e.1 = key)).map (·.2)

/-- The entries of a list of pairs in which later pairs win. -/
def ofPairs (pairs : List (String × α)) : List (String × α) :=
  pairs.foldl (fun es p => insert p.1 p.2 es) []

theorem key_insert {key : String} {value : α} {es : List (String × α)} {e : String × α}
    (h : e ∈ insert key value es) : e.1 = key ∨ e ∈ es := by
  induction es with
  | nil => simp [insert] at h; simp [h]
  | cons p rest ih =>
    obtain ⟨k, w⟩ := p
    simp only [insert] at h
    split at h
    · rcases List.mem_cons.1 h with rfl | h
      · exact .inl rfl
      · exact .inr h
    · split at h
      · rcases List.mem_cons.1 h with rfl | h
        · exact .inl rfl
        · exact .inr (List.mem_cons_of_mem _ h)
      · rcases List.mem_cons.1 h with rfl | h
        · exact .inr (List.mem_cons_self ..)
        · exact (ih h).imp_right (List.mem_cons_of_mem _)

theorem get?_insert (key key' : String) (value : α) (es : List (String × α)) :
    get? (insert key value es) key' = if key' = key then some value else get? es key' := by
  induction es with
  | nil =>
    simp only [insert, get?, List.find?_cons, List.find?_nil]
    by_cases h : key' = key
    · simp [h]
    · simp [h, Ne.symm h]
  | cons p rest ih =>
    obtain ⟨k, w⟩ := p
    simp only [get?] at ih
    simp only [insert]
    split
    · by_cases h : key' = key
      · simp [get?, h]
      · simp [get?, h, Ne.symm h]
    · split
      · next heq =>
        subst heq
        by_cases h : key' = key
        · simp [get?, h]
        · simp [get?, h, Ne.symm h]
      · next hne =>
        simp only [get?, List.find?_cons]
        by_cases h : k = key'
        · subst h
          simp [Ne.symm hne]
        · simp only [h, decide_false, ih]

theorem get?_erase (key key' : String) (es : List (String × α)) :
    get? (erase key es) key' = if key' = key then none else get? es key' := by
  simp only [get?, erase, List.find?_filter]
  split
  · next h => simp [h]
  · next h =>
    congr 2
    funext e
    by_cases he : e.1 = key'
    · simp [he, h]
    · simp [he]

theorem Increasing.insert {key : String} {value : α} {es : List (String × α)}
    (h : Increasing es) : Increasing (insert key value es) := by
  induction es with
  | nil => simp [Entries.insert, Increasing]
  | cons p rest ih =>
    obtain ⟨k, w⟩ := p
    obtain ⟨hk, hr⟩ := List.pairwise_cons.1 h
    simp only [Entries.insert]
    split
    · next hlt =>
      refine List.pairwise_cons.2 ⟨fun e he => ?_, h⟩
      rcases List.mem_cons.1 he with rfl | he
      · exact hlt
      · exact String.lt_trans hlt (hk e he)
    · next hnlt =>
      split
      · next heq => exact List.pairwise_cons.2 ⟨fun e he => heq ▸ hk e he, hr⟩
      · next hne =>
        refine List.pairwise_cons.2 ⟨fun e he => ?_, ih hr⟩
        rcases key_insert he with he | he
        · have hle : k ≤ key := String.not_lt.1 hnlt
          rw [he]
          refine Decidable.byContradiction fun hn => hne ?_
          exact String.le_antisymm (String.not_lt.1 hn) hle
        · exact hk e he

theorem Increasing.erase {key : String} {es : List (String × α)} (h : Increasing es) :
    Increasing (erase key es) :=
  List.Pairwise.filter _ h

end Entries

structure SortedMap (α : Type u) where
  entries : List (String × α)
  increasing : Entries.Increasing entries
deriving DecidableEq

namespace SortedMap

variable {α : Type u}

def empty : SortedMap α :=
  ⟨[], List.Pairwise.nil⟩

instance : Inhabited (SortedMap α) :=
  ⟨empty⟩

def isEmpty (m : SortedMap α) : Bool :=
  m.entries.isEmpty

def size (m : SortedMap α) : Nat :=
  m.entries.length

def get? (m : SortedMap α) (key : String) : Option α :=
  Entries.get? m.entries key

def insert (m : SortedMap α) (key : String) (value : α) : SortedMap α :=
  ⟨Entries.insert key value m.entries, m.increasing.insert⟩

def erase (m : SortedMap α) (key : String) : SortedMap α :=
  ⟨Entries.erase key m.entries, m.increasing.erase⟩

/-- Adds the pairs one after another, each over what is there. -/
def insertAll (m : SortedMap α) (pairs : List (String × α)) : SortedMap α :=
  pairs.foldl (fun m p => m.insert p.1 p.2) m

def ofPairs (pairs : List (String × α)) : SortedMap α :=
  empty.insertAll pairs

end SortedMap

end BrokerClient
