import BrokerClient.Supervisor.Lock

/-!
# The order in a lock

Who joins and leaves a lock does not disturb the order of the others: leaving commutes with the joining and
the leaving of another one.
-/
namespace BrokerClient

namespace Lock

variable {l : Lock} {i j : InvocationId}

/-- The owner, and then those in the queue. -/
def members (l : Lock) : List InvocationId :=
  l.owner.toList ++ l.queue

/-- Nobody is in the lock twice, and a lock for which somebody waits is owned. -/
structure Orderly (l : Lock) : Prop where
  nodup : l.members.Nodup
  free : l.owner = none → l.queue = []

theorem orderly_empty : Orderly {} :=
  ⟨List.nodup_nil, fun _ => rfl⟩

theorem owner_mem (h : l.owner = some i) : i ∈ l.members := by
  simp [members, h]

/-! ## Joining -/

theorem join_of_free (h : l.owner = none) (i : InvocationId) : l.join i = { l with owner := some i } := by
  simp only [join, h]

theorem join_of_notMem (h : l.owner = some j) (hi : i ∉ l.members) :
    l.join i = { l with queue := l.queue ++ [i] } := by
  simp only [members, h, Option.toList_some, List.singleton_append, List.mem_cons, not_or] at hi
  have hn : ¬(j = i ∨ i ∈ l.queue) := by
    rintro (rfl | hm)
    · exact hi.1 rfl
    · exact hi.2 hm
  simp only [join, h, if_neg hn]

/-- Who is in the lock already does not come a second time. -/
theorem join_of_mem (h : l.Orderly) (hi : i ∈ l.members) : l.join i = l := by
  cases ho : l.owner with
  | none =>
      simp only [members, ho, h.free ho] at hi
      cases hi
  | some o =>
      simp only [members, ho, Option.toList_some, List.singleton_append, List.mem_cons] at hi
      simp only [join, ho, if_pos (hi.imp_left Eq.symm)]

theorem owner_join (h : l.owner = some j) (i : InvocationId) : (l.join i).owner = some j := by
  simp only [join, h]
  split <;> simp [h]

theorem members_join (h : l.Orderly) (hi : i ∉ l.members) : (l.join i).members = l.members ++ [i] := by
  cases ho : l.owner with
  | none => simp [join_of_free ho, members, ho, h.free ho]
  | some o => simp [join_of_notMem ho hi, members, ho]

theorem Orderly.join (h : l.Orderly) (hi : i ∉ l.members) : (l.join i).Orderly := by
  refine ⟨?_, fun ho => ?_⟩
  · rw [members_join h hi]
    refine List.nodup_append.2 ⟨h.nodup, by simp, ?_⟩
    intro a ha b hb
    rw [List.mem_singleton.1 hb]
    rintro rfl
    exact hi ha
  · cases hl : l.owner with
    | none => rw [join_of_free hl] at ho; cases ho
    | some o => rw [owner_join hl] at ho; cases ho

/-! ## Leaving -/

theorem leave_of_ne (h : l.owner ≠ some i) : l.leave i = { l with queue := l.queue.filter (· ≠ i) } := by
  simp only [leave, if_neg h]

theorem leave_of_owner (h : l.owner = some i) : l.leave i = ⟨l.queue.head?, l.queue.tail⟩ := by
  simp only [leave, h, if_true]
  cases l.queue <;> rfl

theorem owner_leave (h : l.owner = some j) (hij : j ≠ i) : (l.leave i).owner = some j := by
  rw [leave_of_ne (by rw [h]; simpa using hij), h]

theorem leave_of_notMem (h : i ∉ l.members) : l.leave i = l := by
  have ho : l.owner ≠ some i := fun ho => h (owner_mem ho)
  have hq : l.queue.filter (· ≠ i) = l.queue := by
    rw [List.filter_eq_self]
    intro j hj
    simp only [ne_eq, decide_not, Bool.not_eq_true', decide_eq_false_iff_not]
    rintro rfl
    exact h (List.mem_append_right _ hj)
  rw [leave_of_ne ho, hq]

theorem members_leave (h : l.Orderly) (i : InvocationId) : (l.leave i).members = l.members.filter (· ≠ i) := by
  by_cases ho : l.owner = some i
  · have hn := h.nodup
    rw [leave_of_owner ho]
    simp only [members, ho, Option.toList_some, List.singleton_append, List.nodup_cons] at hn ⊢
    have hq : l.queue.filter (· ≠ i) = l.queue := by
      rw [List.filter_eq_self]
      intro j hj
      simp only [ne_eq, decide_not, Bool.not_eq_true', decide_eq_false_iff_not]
      rintro rfl
      exact hn.1 hj
    rw [List.filter_cons_of_neg (by simp), hq]
    cases l.queue <;> rfl
  · rw [leave_of_ne ho]
    simp only [members, List.filter_append]
    cases ho' : l.owner with
    | none => rfl
    | some o =>
        have hne : o ≠ i := fun h => ho (by rw [ho', h])
        simp [hne]

theorem Orderly.leave (h : l.Orderly) (i : InvocationId) : (l.leave i).Orderly := by
  refine ⟨?_, fun ho => ?_⟩
  · rw [members_leave h]
    exact h.nodup.filter _
  · by_cases hi : l.owner = some i
    · rw [leave_of_owner hi] at ho ⊢
      simp only [List.head?_eq_none_iff] at ho
      simp [ho]
    · rw [leave_of_ne hi] at ho ⊢
      simp [h.free ho]

theorem mem_members_leave (h : l.Orderly) (i j : InvocationId) :
    j ∈ (l.leave i).members ↔ j ≠ i ∧ j ∈ l.members := by
  rw [members_leave h, List.mem_filter]
  simp [and_comm]

/-! ## Deletion -/

/-- A lock is known by its members. -/
theorem eq_of_members {l' : Lock} (h : l.Orderly) (h' : l'.Orderly) (hm : l.members = l'.members) : l = l' := by
  obtain ⟨o, q⟩ := l
  obtain ⟨o', q'⟩ := l'
  cases o with
  | none =>
      obtain rfl : q = [] := h.free rfl
      cases o' with
      | none =>
          obtain rfl : q' = [] := h'.free rfl
          rfl
      | some o' => simp [members] at hm
  | some o =>
      cases o' with
      | none =>
          obtain rfl : q' = [] := h'.free rfl
          simp [members] at hm
      | some o' =>
          simp only [members, Option.toList_some, List.singleton_append, List.cons.injEq] at hm
          rw [hm.1, hm.2]

theorem leave_join (h : l.Orderly) (hj : j ∉ l.members) (hij : i ≠ j) :
    (l.join j).leave i = (l.leave i).join j := by
  have hl := h.leave i
  have hj' : j ∉ (l.leave i).members := fun hm => hj ((mem_members_leave h i j).1 hm).2
  apply eq_of_members ((h.join hj).leave i) (hl.join hj')
  rw [members_leave (h.join hj), members_join h hj, members_join hl hj', members_leave h, List.filter_append]
  simp [Ne.symm hij]

theorem join_leave (h : l.Orderly) (hi : i ∉ l.members) : (l.join i).leave i = l := by
  apply eq_of_members ((h.join hi).leave i) h
  rw [members_leave (h.join hi), members_join h hi, List.filter_append]
  have hq : l.members.filter (· ≠ i) = l.members := by
    rw [← members_leave h, leave_of_notMem hi]
  rw [hq]
  simp

theorem leave_leave (h : l.Orderly) (i j : InvocationId) : (l.leave j).leave i = (l.leave i).leave j := by
  apply eq_of_members ((h.leave j).leave i) ((h.leave i).leave j)
  rw [members_leave (h.leave j), members_leave h, members_leave (h.leave i), members_leave h,
    List.filter_filter, List.filter_filter]
  congr 1
  funext k
  exact Bool.and_comm ..

theorem leave_idem (h : l.Orderly) (i : InvocationId) : (l.leave i).leave i = l.leave i :=
  leave_of_notMem fun hm => ((mem_members_leave h i i).1 hm).1 rfl

end Lock

end BrokerClient
