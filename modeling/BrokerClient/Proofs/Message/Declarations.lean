import BrokerClient.Proofs.Message.Supersession
import BrokerClient.Proofs.SortedMap
import Mathlib.Data.List.Chain
import Mathlib.Data.List.Induction
import Mathlib.Logic.Relation

/-!
# Chains of declared types

The last declaration for a type counts (`predecessor?_ofPairs`). A type has a chain if the types that are declared as
its predecessors come to an end, and the chain is then the whole line of them; if they do not come to an end, they run
into a circle, which the type itself need not be on (`chain_ofPairs`).
-/
namespace BrokerClient

namespace Supersession

variable {s : Supersession} {t u older : MessageType} {ts seen : List MessageType}

/-! ## Ends and circles -/

def Supersedes (s : Supersession) (newer older : MessageType) : Prop :=
  s.predecessor? newer = some older

namespace Lineage

theorem head?_eq (h : s.Lineage t ts) : ts.head? = some t := by
  cases h <;> rfl

theorem isChain (h : s.Lineage t ts) : ts.IsChain s.Supersedes := by
  induction h with
  | oldest => exact .singleton _
  | @newer t older ts hs hl ih =>
      cases hl with
      | oldest => exact .cons_cons hs (.singleton _)
      | newer => exact .cons_cons hs ih

theorem getLast?_eq (h : s.Lineage t ts) : ∃ u, ts.getLast? = some u ∧ s.predecessor? u = none ∧
    Relation.ReflTransGen s.Supersedes t u := by
  induction h with
  | @oldest t hn => exact ⟨t, rfl, hn, .refl⟩
  | @newer t older ts hs hl ih =>
      obtain ⟨u, hlast, hu, hreach⟩ := ih
      exact ⟨u, by rw [List.getLast?_cons, hlast]; rfl, hu, .head hs hreach⟩

theorem of_isChain (hfirst : ts.head? = some t) (hchain : ts.IsChain s.Supersedes)
    (hlast : ∀ u ∈ ts.getLast?, s.predecessor? u = none) : s.Lineage t ts := by
  induction ts generalizing t with
  | nil => cases hfirst
  | cons t' ts ih =>
      obtain rfl : t' = t := Option.some.inj hfirst
      cases hchain with
      | singleton => exact .oldest (hlast t' rfl)
      | cons_cons hs hrest =>
          refine .newer hs (ih rfl hrest fun u hu => hlast u ?_)
          rwa [List.getLast?_cons_cons]

theorem of_reaches (hreach : Relation.ReflTransGen s.Supersedes t u) (hu : s.predecessor? u = none) :
    ∃ ts, s.Lineage t ts := by
  induction hreach using Relation.ReflTransGen.head_induction_on with
  | refl => exact ⟨[u], .oldest hu⟩
  | head hs _ ih =>
      obtain ⟨ts, hl⟩ := ih
      exact ⟨_, .newer hs hl⟩

/-- What a line leads to has the rest of the line. -/
theorem suffix_of_reaches (h : s.Lineage t ts) (hreach : Relation.ReflTransGen s.Supersedes t u) :
    ∃ us, us <:+ ts ∧ s.Lineage u us := by
  induction hreach with
  | refl => exact ⟨ts, List.suffix_rfl, h⟩
  | tail _ hs ih =>
      obtain ⟨us, hsuf, hl⟩ := ih
      cases hl with
      | oldest hn => rw [hs] at hn; cases hn
      | newer hs' hl' =>
          rw [hs] at hs'
          cases hs'
          exact ⟨_, (List.suffix_cons ..).trans hsuf, hl'⟩

/-- A type on a circle would have a line that is longer than itself. -/
theorem not_circle (h : s.Lineage t ts) : ¬Relation.TransGen s.Supersedes t t := by
  intro hcircle
  obtain ⟨older, hs, hback⟩ := Relation.TransGen.head'_iff.1 hcircle
  cases h with
  | oldest hn => rw [hs] at hn; cases hn
  | newer hs' hl =>
      rw [hs] at hs'
      cases hs'
      obtain ⟨us, hsuf, hus⟩ := hl.suffix_of_reaches hback
      have hlen := hsuf.length_le
      rw [hus.unique (.newer hs hl), List.length_cons] at hlen
      omega

end Lineage

/-- A walk that fails has come to a circle: the type that it was going to see again leads back to itself. -/
theorem exists_circle_of_walk (h : s.walk seen t = none)
    (hseen : ∀ u ∈ seen, Relation.ReflTransGen s.Supersedes u t) :
    ∃ u, Relation.ReflTransGen s.Supersedes t u ∧ Relation.TransGen s.Supersedes u u := by
  induction seen, t using walk.induct s with
  | case1 seen t hn =>
      rw [walk_of_none hn] at h
      cases h
  | case2 seen t older hs hmem => exact ⟨older, .single hs, .tail' (hseen older hmem) hs⟩
  | case3 seen t older hs hmem ih =>
      rw [walk_of_unseen hs hmem, Option.map_eq_none_iff] at h
      have hnext : ∀ u ∈ older :: seen, Relation.ReflTransGen s.Supersedes u older := by
        intro u hu
        rcases List.mem_cons.1 hu with rfl | hu
        · exact .refl
        · exact (hseen u hu).tail hs
      obtain ⟨u, hreach, hcircle⟩ := ih h hnext
      exact ⟨u, .head hs hreach, hcircle⟩

theorem chain_eq_error_iff : s.chain t = .error (.supersessionCycle t) ↔
    ∃ u, Relation.ReflTransGen s.Supersedes t u ∧ Relation.TransGen s.Supersedes u u := by
  constructor
  · intro h
    unfold chain at h
    split at h
    · cases h
    · rename_i hw
      refine exists_circle_of_walk hw fun u hu => ?_
      rw [List.mem_singleton.1 hu]
  · rintro ⟨u, hreach, hcircle⟩
    cases hw : s.walk [t] t with
    | none => simp only [chain, hw]
    | some ts =>
        obtain ⟨us, -, hus⟩ := (Lineage.of_walk hw).suffix_of_reaches hreach
        exact absurd hcircle hus.not_circle

theorem chain_cases (s : Supersession) (t : MessageType) :
    (∃ ts, s.chain t = .ok ts) ∨ s.chain t = .error (.supersessionCycle t) := by
  unfold chain
  split
  · exact .inl ⟨_, rfl⟩
  · exact .inr rfl

/-! ## Declarations -/

variable {pairs : List (MessageType × MessageType)} {newer older : MessageType}

/-- The last one of the declarations for the newer type names the older one. -/
def Declared (pairs : List (MessageType × MessageType)) (newer older : MessageType) : Prop :=
  ∃ before after, pairs = before ++ (newer, older) :: after ∧ ∀ p ∈ after, p.1 ≠ newer

theorem not_declared_nil : ¬Declared [] newer older := by
  rintro ⟨before, after, h, -⟩
  cases before <;> cases h

theorem declared_append_iff {p : MessageType × MessageType} :
    Declared (pairs ++ [p]) newer older ↔ p = (newer, older) ∨ p.1 ≠ newer ∧ Declared pairs newer older := by
  constructor
  · rintro ⟨before, after, h, hafter⟩
    rcases List.eq_nil_or_concat after with rfl | ⟨after, q, rfl⟩
    · exact .inl (List.cons.inj (List.append_inj_right' h rfl)).1
    · rw [List.concat_eq_append] at h hafter
      rw [← List.cons_append, ← List.append_assoc] at h
      obtain rfl : p = q := (List.cons.inj (List.append_inj_right' h rfl)).1
      obtain ⟨hafter, hp⟩ := List.forall_mem_append.1 hafter
      exact .inr ⟨hp p List.mem_cons_self, before, after, List.append_inj_left' h rfl, hafter⟩
  · rintro (rfl | ⟨hne, before, after, rfl, hafter⟩)
    · exact ⟨pairs, [], rfl, by simp⟩
    · refine ⟨before, after ++ [p], by simp, List.forall_mem_append.2 ⟨hafter, ?_⟩⟩
      simpa using hne

theorem predecessor?_declare (s : Supersession) (newer older t : MessageType) :
    (s.declare newer older).predecessor? t = if t = newer then some older else s.predecessor? t := by
  have hname : t.name = newer.name ↔ t = newer := by
    cases t
    cases newer
    simp
  simp only [predecessor?, declare, SortedMap.get?, SortedMap.insert, Entries.get?_insert, hname]

theorem ofPairs_append (pairs : List (MessageType × MessageType)) (p : MessageType × MessageType) :
    ofPairs (pairs ++ [p]) = (ofPairs pairs).declare p.1 p.2 := by
  simp only [ofPairs, List.foldl_append, List.foldl_cons, List.foldl_nil]

theorem predecessor?_ofPairs : (ofPairs pairs).predecessor? newer = some older ↔ Declared pairs newer older := by
  induction pairs using List.reverseRecOn with
  | nil => exact iff_of_false nofun not_declared_nil
  | append_singleton pairs p ih =>
      rw [ofPairs_append, predecessor?_declare, declared_append_iff, ← ih]
      obtain ⟨newer', older'⟩ := p
      by_cases hne : newer = newer'
      · simp [hne]
      · simp [hne, Ne.symm hne]

theorem supersedes_ofPairs : (ofPairs pairs).Supersedes = Declared pairs := by
  funext newer older
  exact propext predecessor?_ofPairs

theorem predecessor?_ofPairs_eq_none : (ofPairs pairs).predecessor? t = none ↔ ∀ older, ¬Declared pairs t older := by
  simp only [← predecessor?_ofPairs, Option.eq_none_iff_forall_ne_some, ne_eq]

theorem size_ofPairs_le (pairs : List (MessageType × MessageType)) :
    (ofPairs pairs).predecessors.size ≤ pairs.length := by
  induction pairs using List.reverseRecOn with
  | nil => exact Nat.le_refl 0
  | append_singleton pairs p ih =>
      have hinsert := Entries.length_insert_le p.1.name p.2 (ofPairs pairs).predecessors.entries
      simp only [SortedMap.size] at ih
      simp only [ofPairs_append, declare, SortedMap.size, SortedMap.insert, List.length_append, List.length_singleton]
      omega

/-! ## Chains -/

/-- The declared predecessors of the type lead to a type without one. -/
def Ends (pairs : List (MessageType × MessageType)) (t : MessageType) : Prop :=
  ∃ u, Relation.ReflTransGen (Declared pairs) t u ∧ ∀ older, ¬Declared pairs u older

/-- The whole line of declared predecessors of a type, in which no type comes twice. -/
structure Descends (pairs : List (MessageType × MessageType)) (t : MessageType) (ts : List MessageType) : Prop where
  first : ts.head? = some t
  declared : ts.IsChain (Declared pairs)
  last : ∀ u ∈ ts.getLast?, ∀ older, ¬Declared pairs u older
  distinct : ts.Nodup

theorem descends_iff : Descends pairs t ts ↔ (ofPairs pairs).Lineage t ts := by
  constructor
  · rintro ⟨hfirst, hdeclared, hlast, -⟩
    rw [← supersedes_ofPairs] at hdeclared
    exact .of_isChain hfirst hdeclared fun u hu => predecessor?_ofPairs_eq_none.2 (hlast u hu)
  · intro h
    obtain ⟨u, hu, hnone, -⟩ := h.getLast?_eq
    refine ⟨h.head?_eq, supersedes_ofPairs ▸ h.isChain, fun v hv => ?_, h.nodup⟩
    rw [hu] at hv
    cases hv
    exact predecessor?_ofPairs_eq_none.1 hnone

theorem ends_iff : Ends pairs t ↔ ∃ ts, (ofPairs pairs).Lineage t ts := by
  rw [Ends, ← supersedes_ofPairs]
  constructor
  · rintro ⟨u, hreach, hu⟩
    exact Lineage.of_reaches hreach (Option.eq_none_iff_forall_ne_some.2 hu)
  · rintro ⟨ts, h⟩
    obtain ⟨u, -, hu, hreach⟩ := h.getLast?_eq
    exact ⟨u, hreach, Option.eq_none_iff_forall_ne_some.1 hu⟩

/-- A type has a chain just if its declared predecessors come to an end, and the chain is the line of them all, which
is at most by one longer than the declarations. A type without a chain is named by the error, and its predecessors run
into a circle. -/
theorem chain_ofPairs (pairs : List (MessageType × MessageType)) (t : MessageType) :
    ((∃ ts, (ofPairs pairs).chain t = .ok ts) ↔ Ends pairs t) ∧
    (∀ ts, (ofPairs pairs).chain t = .ok ts ↔ Descends pairs t ts) ∧
    (∀ ts, Descends pairs t ts → ts.length ≤ pairs.length + 1) ∧
    ((ofPairs pairs).chain t = .error (.supersessionCycle t) ↔ ¬Ends pairs t) ∧
    (¬Ends pairs t ↔
      ∃ u, Relation.ReflTransGen (Declared pairs) t u ∧ Relation.TransGen (Declared pairs) u u) := by
  have hok : (∃ ts, (ofPairs pairs).chain t = .ok ts) ↔ Ends pairs t := by
    simp only [chain_eq_ok_iff, ends_iff]
  have herror : (ofPairs pairs).chain t = .error (.supersessionCycle t) ↔ ¬Ends pairs t := by
    rw [← hok]
    constructor
    · rintro h ⟨ts, hts⟩
      rw [h] at hts
      cases hts
    · exact ((ofPairs pairs).chain_cases t).resolve_left
  refine ⟨hok, fun ts => chain_eq_ok_iff.trans descends_iff.symm, fun ts h => ?_, herror, ?_⟩
  · exact (descends_iff.1 h).length_le.trans (Nat.succ_le_succ (size_ofPairs_le pairs))
  · rw [← herror, chain_eq_error_iff, supersedes_ofPairs]

/-- The circle need not go through the type. -/
example : (ofPairs [(⟨"a"⟩, ⟨"b"⟩), (⟨"b"⟩, ⟨"c"⟩), (⟨"c"⟩, ⟨"b"⟩)]).chain ⟨"a"⟩ =
    .error (.supersessionCycle ⟨"a"⟩) := rfl

end Supersession

end BrokerClient
