import BrokerClient.SortedMap

/-!
# Maps and their entries

Pairs that come in the order of their keys are the entries of the map that they make, and pairs with different keys make
the same map in any order (`Entries.ofPairs_of_perm`). A map is what is found in it (`SortedMap.ext_get?`).
-/
namespace BrokerClient

variable {α : Type} {es es' : List (String × α)} {key : String} {value : α}

namespace Entries

theorem insert_of_greatest (h : ∀ e ∈ es, e.1 < key) : insert key value es = es ++ [(key, value)] := by
  induction es with
  | nil => rfl
  | cons e es ih =>
      obtain ⟨k, w⟩ := e
      obtain ⟨hk, hes⟩ := List.forall_mem_cons.1 h
      have hnlt : ¬key < k := fun hlt => String.lt_irrefl k (String.lt_trans hk hlt)
      have hne : key ≠ k := fun heq => String.lt_irrefl k (heq ▸ hk)
      simp only [insert, hnlt, hne, if_false, ih hes, List.cons_append]

theorem length_insert_le (key : String) (value : α) (es : List (String × α)) :
    (insert key value es).length ≤ es.length + 1 := by
  induction es with
  | nil => exact Nat.le_refl 1
  | cons e es ih =>
      obtain ⟨k, w⟩ := e
      simp only [insert]
      split
      · exact Nat.le_refl _
      · split
        · exact Nat.le_succ _
        · exact Nat.succ_le_succ ih

theorem ofPairs_of_increasing (h : Increasing es) : ofPairs es = es := by
  suffices ∀ ps done : List (String × α), Increasing (done ++ ps) →
      ps.foldl (fun es p => insert p.1 p.2 es) done = done ++ ps from this es [] h
  intro ps
  induction ps with
  | nil => simp
  | cons p ps ih =>
      intro done hd
      have hgreatest : ∀ e ∈ done, e.1 < p.1 := fun e he =>
        (List.pairwise_append.1 hd).2.2 e he p List.mem_cons_self
      rw [List.foldl_cons, insert_of_greatest hgreatest, ih (done ++ [p]) (by simpa using hd), List.append_assoc]
      rfl

/-! ## Entries by key -/

/-- One key has at most one entry. -/
theorem filter_key (h : Increasing es) (key : String) :
    es.filter (fun e => e.1 = key) = ((get? es key).map (Prod.mk key)).toList := by
  induction es with
  | nil => rfl
  | cons e es ih =>
      obtain ⟨k, v⟩ := e
      obtain ⟨hfirst, hrest⟩ := List.pairwise_cons.1 h
      by_cases hk : k = key
      · subst hk
        have hnone : es.filter (fun e => e.1 = k) = [] := by
          refine List.filter_eq_nil_iff.2 fun e he heq => ?_
          have hlt := hfirst e he
          rw [of_decide_eq_true heq] at hlt
          exact String.lt_irrefl k hlt
        simp [get?, hnone]
      · simpa [get?, hk] using ih hrest

theorem mem_iff_get? (h : Increasing es) {e : String × α} : e ∈ es ↔ get? es e.1 = some e.2 := by
  have hfilter : e ∈ es.filter (fun e' => e'.1 = e.1) ↔ e ∈ es := by simp
  rw [← hfilter, filter_key h]
  cases get? es e.1 <;> simp [Prod.ext_iff, eq_comm]

theorem Increasing.nodup (h : Increasing es) : es.Nodup :=
  h.imp (S := (· ≠ ·)) fun hlt heq => String.lt_irrefl _ (heq ▸ hlt)

theorem Increasing.eq_of_perm (h : Increasing es) (h' : Increasing es') (hp : es.Perm es') : es = es' :=
  hp.eq_of_pairwise (fun _ _ _ _ hlt hgt => absurd hgt (String.lt_asymm hlt)) h h'

theorem Increasing.eq_of_get? (h : Increasing es) (h' : Increasing es') (hget : ∀ key, get? es key = get? es' key) :
    es = es' :=
  h.eq_of_perm h' ((List.perm_ext_iff_of_nodup h.nodup h'.nodup).2 fun e => by
    rw [mem_iff_get? h, mem_iff_get? h', hget])

end Entries

namespace SortedMap

theorem entries_ofPairs (pairs : List (String × α)) : (ofPairs pairs).entries = Entries.ofPairs pairs := by
  suffices ∀ (ps : List (String × α)) (m : SortedMap α),
      (m.insertAll ps).entries = ps.foldl (fun es p => Entries.insert p.1 p.2 es) m.entries from this pairs empty
  intro ps
  induction ps with
  | nil => exact fun _ => rfl
  | cons p ps ih => exact fun m => ih (m.insert p.1 p.2)

theorem entries_ofPairs_of_increasing (h : Entries.Increasing es) : (ofPairs es).entries = es := by
  rw [entries_ofPairs, Entries.ofPairs_of_increasing h]

variable {m m' : SortedMap α}

theorem ext_get? (h : ∀ key, m.get? key = m'.get? key) : m = m' := by
  obtain ⟨es, hes⟩ := m
  obtain ⟨es', hes'⟩ := m'
  obtain rfl : es = es' := hes.eq_of_get? hes' h
  rfl

/-- What is found after some pairs have been added: the value of the last one with the key. -/
theorem get?_insertAll (m : SortedMap α) (pairs : List (String × α)) (key : String) :
    (m.insertAll pairs).get? key = ((pairs.filter (fun p => p.1 = key)).map (·.2)).getLast?.or (m.get? key) := by
  induction pairs generalizing m with
  | nil => rfl
  | cons p pairs ih =>
      have hfirst : (m.insert p.1 p.2).get? key = if key = p.1 then some p.2 else m.get? key := Entries.get?_insert ..
      have hstep : (m.insertAll (p :: pairs)).get? key = ((m.insert p.1 p.2).insertAll pairs).get? key := rfl
      rw [hstep, ih, hfirst]
      by_cases hp : p.1 = key
      · simp only [hp, if_true, List.filter_cons_of_pos, decide_true, List.map_cons, List.getLast?_cons]
        cases ((pairs.filter (fun p => p.1 = key)).map (·.2)).getLast? <;> rfl
      · simp [hp, Ne.symm hp]

/-- Pairs with different keys make the same map in any order. -/
theorem ofPairs_of_perm {pairs : List (String × α)} (hp : m.entries.Perm pairs) : ofPairs pairs = m := by
  apply ext_get?
  intro key
  have hfilter : pairs.filter (fun p => p.1 = key) = ((m.get? key).map (Prod.mk key)).toList := by
    have hperm := (hp.filter (fun p => p.1 = key)).symm
    rw [Entries.filter_key m.increasing] at hperm
    simp only [get?]
    cases hkey : Entries.get? m.entries key with
    | none => simpa [hkey] using hperm
    | some v => simpa [hkey] using hperm
  rw [ofPairs, get?_insertAll, hfilter]
  cases m.get? key <;> rfl

end SortedMap

theorem Entries.ofPairs_of_perm (h : Increasing es) {pairs : List (String × α)} (hp : es.Perm pairs) :
    ofPairs pairs = es := by
  have hmap := SortedMap.ofPairs_of_perm (m := ⟨es, h⟩) hp
  rw [← SortedMap.entries_ofPairs, hmap]

end BrokerClient
