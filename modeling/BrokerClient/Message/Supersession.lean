import BrokerClient.Message.Error

/-!
# Supersession

Which type of messages supersedes which. A type has at most one direct predecessor, the one declared
last. The chain of a type follows the predecessors to a type without one; there is none if they run
in a circle.
-/
namespace BrokerClient

structure Supersession where
  predecessors : SortedMap MessageType

namespace Supersession

def empty : Supersession :=
  ⟨.empty⟩

def declare (s : Supersession) (newer older : MessageType) : Supersession :=
  ⟨s.predecessors.insert newer.name older⟩

/-- Declares the pairs of a newer and an older type in their order. -/
def ofPairs (pairs : List (MessageType × MessageType)) : Supersession :=
  pairs.foldl (fun s p => s.declare p.1 p.2) empty

def predecessor? (s : Supersession) (t : MessageType) : Option MessageType :=
  s.predecessors.get? t.name

/-- The declared predecessors that a walk has not seen yet. -/
def unseen (s : Supersession) (seen : List MessageType) : List MessageType :=
  (s.predecessors.entries.map Prod.snd).filter (fun older => !seen.contains older)

theorem length_unseen_cons_lt {s : Supersession} {t older : MessageType} {seen : List MessageType}
    (h : s.predecessor? t = some older) (hn : older ∉ seen) :
    (s.unseen (older :: seen)).length < (s.unseen seen).length := by
  obtain ⟨e, he, rfl⟩ := Option.map_eq_some_iff.1 h
  have hmem : e.2 ∈ s.unseen seen :=
    List.mem_filter.2 ⟨List.mem_map_of_mem (List.mem_of_find?_eq_some he), by simpa using hn⟩
  have hsplit : s.unseen (e.2 :: seen) = (s.unseen seen).filter (· != e.2) := by
    simp only [unseen, List.filter_filter, List.contains_cons, Bool.not_or, bne]
  rw [hsplit, List.length_filter_lt_length_iff_exists]
  exact ⟨e.2, hmem, by simp⟩

/-- The type and all its predecessors, the most recent first, unless the walk comes to a type that it
has seen. -/
@[semireducible] def walk (s : Supersession) (seen : List MessageType) (t : MessageType) :
    Option (List MessageType) :=
  match _ : s.predecessor? t with
  | none => some [t]
  | some older =>
    if _ : older ∈ seen then none else (s.walk (older :: seen) older).map (t :: ·)
termination_by (s.unseen seen).length
decreasing_by exact length_unseen_cons_lt ‹_› ‹_›

/-- The type and all its predecessors. A walk that comes to a type twice goes in a circle. -/
def chain (s : Supersession) (t : MessageType) : Except MessageError (List MessageType) :=
  match s.walk [t] t with
  | some ts => .ok ts
  | none => .error (.supersessionCycle t)

end Supersession

end BrokerClient
