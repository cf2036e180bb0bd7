import BrokerClient.Message.Supersession
import Mathlib.Data.List.Nodup
import Mathlib.Data.List.Perm.Subperm

/-!
# Lines of types

The chain of a type is its line of predecessors (`chain_eq_ok_iff`). No type comes twice in a line that ends, so the
walk along it takes no more steps than there are declarations.
-/
namespace BrokerClient

namespace Supersession

variable {s : Supersession} {t u older : MessageType} {ts ts' seen : List MessageType}

/-! ## Steps of a walk -/

theorem walk_eq (s : Supersession) (seen : List MessageType) (t : MessageType) : s.walk seen t =
    match s.predecessor? t with
    | none => some [t]
    | some older => if older ∈ seen then none else (s.walk (older :: seen) older).map (t :: ·) := by
  rw [walk]
  split <;> rename_i h <;> simp only [h, dite_eq_ite]

theorem walk_of_none (h : s.predecessor? t = none) : s.walk seen t = some [t] := by
  rw [walk_eq, h]

theorem walk_of_seen (h : s.predecessor? t = some older) (hseen : older ∈ seen) : s.walk seen t = none := by
  rw [walk_eq]
  simp only [h, hseen, if_true]

theorem walk_of_unseen (h : s.predecessor? t = some older) (hseen : older ∉ seen) :
    s.walk seen t = (s.walk (older :: seen) older).map (t :: ·) := by
  rw [walk_eq]
  simp only [h, hseen, if_false]

/-! ## Lines of predecessors -/

/-- A type and its predecessors, one after the other, down to one that has none. -/
inductive Lineage (s : Supersession) : MessageType → List MessageType → Prop where
  | oldest {t : MessageType} (h : s.predecessor? t = none) : Lineage s t [t]
  | newer {t older : MessageType} {ts : List MessageType} (h : s.predecessor? t = some older)
      (hl : Lineage s older ts) : Lineage s t (t :: ts)

namespace Lineage

theorem ne_nil (h : s.Lineage t ts) : ts ≠ [] := by
  cases h <;> simp

theorem unique (h : s.Lineage t ts) (h' : s.Lineage t ts') : ts = ts' := by
  induction h generalizing ts' with
  | oldest hn =>
      cases h' with
      | oldest => rfl
      | newer hs => rw [hn] at hs; cases hs
  | newer hs _ ih =>
      cases h' with
      | oldest hn => rw [hs] at hn; cases hn
      | newer hs' hl' =>
          rw [hs] at hs'
          cases hs'
          rw [ih hl']

/-- The line of each of its types is what follows in it. -/
theorem of_mem (h : s.Lineage t ts) (hu : u ∈ ts) : ∃ us, us <:+ ts ∧ s.Lineage u us := by
  induction h with
  | oldest hn =>
      obtain rfl := List.mem_singleton.1 hu
      exact ⟨_, List.suffix_rfl, .oldest hn⟩
  | @newer t older ts hs hl ih =>
      rcases List.mem_cons.1 hu with rfl | hu
      · exact ⟨_, List.suffix_rfl, .newer hs hl⟩
      · obtain ⟨us, hsuf, hus⟩ := ih hu
        exact ⟨us, hsuf.trans (List.suffix_cons t ts), hus⟩

/-- A type that came a second time would come over and over. -/
theorem nodup (h : s.Lineage t ts) : ts.Nodup := by
  induction h with
  | oldest => exact List.nodup_singleton _
  | @newer t older ts hs hl ih =>
      refine List.nodup_cons.2 ⟨fun ht => ?_, ih⟩
      obtain ⟨us, hsuf, hus⟩ := hl.of_mem ht
      have hlen := hsuf.length_le
      rw [hus.unique (.newer hs hl), List.length_cons] at hlen
      omega

theorem mem_self (h : s.Lineage t ts) : t ∈ ts := by
  cases h <;> exact List.mem_cons_self

theorem notMem_tail (h : s.Lineage t ts) : t ∉ ts.tail := by
  have hn := h.nodup
  cases h <;> exact (List.nodup_cons.1 hn).1

theorem declared (h : s.Lineage t ts) (hu : u ∈ ts.dropLast) : u.name ∈ s.predecessors.entries.map Prod.fst := by
  induction h with
  | oldest => cases hu
  | @newer t older ts hs hl ih =>
      rw [List.dropLast_cons_of_ne_nil hl.ne_nil] at hu
      rcases List.mem_cons.1 hu with rfl | hu
      · obtain ⟨e, he, -⟩ := Option.map_eq_some_iff.1 hs
        have hkey : e.1 = u.name := by simpa using List.find?_some he
        exact hkey ▸ List.mem_map_of_mem (List.mem_of_find?_eq_some he)
      · exact ih hu

theorem length_le (h : s.Lineage t ts) : ts.length ≤ s.predecessors.size + 1 := by
  have hinj : Function.Injective MessageType.name := by
    rintro ⟨a⟩ ⟨b⟩ rfl
    rfl
  have hn : (ts.dropLast.map MessageType.name).Nodup := (h.nodup.sublist (List.dropLast_sublist ts)).map hinj
  have hsub : ts.dropLast.map MessageType.name ⊆ s.predecessors.entries.map Prod.fst := by
    intro name hname
    obtain ⟨u, hu, rfl⟩ := List.mem_map.1 hname
    exact h.declared hu
  have hle := (List.subperm_of_subset hn hsub).length_le
  simp only [List.length_map, List.length_dropLast] at hle
  simp only [SortedMap.size]
  omega

theorem of_walk (h : s.walk seen t = some ts) : s.Lineage t ts := by
  induction seen, t using walk.induct s generalizing ts with
  | case1 seen t hn =>
      rw [walk_of_none hn] at h
      cases h
      exact .oldest hn
  | case2 seen t older hs hseen =>
      rw [walk_of_seen hs hseen] at h
      cases h
  | case3 seen t older hs hseen ih =>
      rw [walk_of_unseen hs hseen] at h
      obtain ⟨rest, hr, rfl⟩ := Option.map_eq_some_iff.1 h
      exact .newer hs (ih hr)

/-- A walk goes along a line that it has not been on. -/
theorem walk (h : s.Lineage t ts) (hseen : ∀ u ∈ ts.tail, u ∉ seen) : s.walk seen t = some ts := by
  induction h generalizing seen with
  | oldest hn => exact walk_of_none hn
  | @newer t older ts hs hl ih =>
      have hfresh : older ∉ seen := hseen older hl.mem_self
      have hrest : ∀ u ∈ ts.tail, u ∉ older :: seen := by
        intro u hu hmem
        rcases List.mem_cons.1 hmem with rfl | hmem
        · exact hl.notMem_tail hu
        · exact hseen u (List.mem_of_mem_tail hu) hmem
      rw [walk_of_unseen hs hfresh, ih hrest]
      rfl

end Lineage

theorem chain_eq_ok_iff : s.chain t = .ok ts ↔ s.Lineage t ts := by
  constructor
  · intro h
    unfold chain at h
    split at h
    · rename_i hw
      cases h
      exact .of_walk hw
    · cases h
  · intro h
    have hseen : ∀ u ∈ ts.tail, u ∉ [t] := by
      intro u hu hmem
      rw [List.mem_singleton.1 hmem] at hu
      exact h.notMem_tail hu
    simp only [chain, h.walk hseen]

end Supersession

end BrokerClient
