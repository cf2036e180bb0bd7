import BrokerClient.Proofs.Scene.Ends
import BrokerClient.Proofs.Scene.Locking

/-!
# The order of arrival

The invocations of a supervisor arrive one after another. Its lock holds those under way in the order in which they
arrived (`Reachable.members_sublist`), so all who arrived before its owner have ended
(`Reachable.ended_before_owner`).
-/
namespace BrokerClient

def Mark.arrival? {α : Type} (s : SupervisorId) : Mark α → Option InvocationId
  | .began i s' _ => if s' = s then some i else none
  | _ => none

namespace Scene

variable {α : Type} {w w' : Scene α} {e : Event α} {i j : InvocationId} {s : SupervisorId}

/-! ## Arrivals -/

/-- The invocations of a supervisor, in the order in which they began. -/
def arrivals (w : Scene α) (s : SupervisorId) : List InvocationId :=
  w.trace.filterMap (Mark.arrival? s)

def ArrivedBefore (w : Scene α) (s : SupervisorId) (i j : InvocationId) : Prop :=
  [i, j].Sublist (w.arrivals s)

theorem arrivals_reached (q : Participant α) (s : SupervisorId) : q.reached.filterMap (Mark.arrival? s) = [] := by
  unfold Participant.reached; split <;> rfl

theorem arrivals_marks (c : Client) (v : Invocation) (m : Move α) (q : Participant α) (s : SupervisorId) :
    (marks c v m q).filterMap (Mark.arrival? s) = [] := by
  unfold marks
  split
  · rfl
  · rw [List.filterMap_append, arrivals_reached, List.append_nil]
    cases c.attempted? v m <;> rfl

/-- Only beginnings are arrivals. -/
theorem Steps.arrivals (h : w.Steps e w') (s : SupervisorId) : w'.arrivals s = w.arrivals s ++
    match e with
    | .begin i s' _ => if s' = s then [i] else []
    | _ => [] := by
  cases h with
  | deed hf hd => simp [Scene.arrivals, Mark.arrival?]
  | @begin i s' t c p hl hi hb =>
      simp only [Scene.arrivals, put, List.filterMap_append, List.filterMap_cons, Mark.arrival?, arrivals_reached]
      by_cases hs : s' = s
      · simp only [hs, if_true]
      · simp only [hs, if_false]
  | move hf hi hm => simp only [Scene.arrivals, put, List.filterMap_append, arrivals_marks]

theorem Reachable.mem_arrivals (h : w.Reachable) :
    i ∈ w.arrivals s ↔ ∃ p, w.participants i = some p ∧ p.invocation.supervisor = s := by
  induction h with
  | start => simp [Scene.start, arrivals]
  | @step w w' e hr hs ih =>
      have hs := steps_of_step hs
      rw [hs.arrivals, List.mem_append, ih]
      cases hs with
      | deed => simp
      | @begin j s' t c q hl hj hb =>
          simp only [put]
          by_cases hij : i = j
          · subst hij
            simp [hj, hb.invocation, Client.fresh, eq_comm]
          · have hij' : i ∉ (if s' = s then [j] else []) := by split <;> simp [hij]
            simp [hij, hij']
      | @move j m p' q c hf hj hm =>
          simp only [put]
          by_cases hij : i = j
          · subst hij
            simp [hj, (Client.leads_of_move? hm).same.2.1]
          · simp [hij]

theorem Reachable.nodup_arrivals (h : w.Reachable) (s : SupervisorId) : (w.arrivals s).Nodup := by
  induction h with
  | start => exact List.nodup_nil
  | @step w w' e hr hs ih =>
      have hs := steps_of_step hs
      rw [hs.arrivals]
      cases hs with
      | deed | move => simpa using ih
      | @begin j s' t c q hl hj hb =>
          have hnot : j ∉ w.arrivals s := by
            rw [hr.mem_arrivals, hj]
            simp
          by_cases hs' : s' = s
          · simp only [hs', if_true]
            refine List.nodup_append.2 ⟨ih, by simp, fun a ha b hb => ?_⟩
            rw [List.mem_singleton.1 hb]
            rintro rfl
            exact hnot ha
          · simpa only [hs', if_false, List.append_nil] using ih

theorem sublist_of_append {β : Type} {a b : β} {l l' : List β} (h : [a, b].Sublist (l ++ l')) (hb : b ∉ l') :
    [a, b].Sublist l := by
  induction l with
  | nil => exact absurd (h.subset (by simp)) hb
  | cons x xs ih =>
      cases h with
      | cons _ h => exact (ih h).cons x
      | cons_cons _ h =>
          have hmem : b ∈ xs := (List.mem_append.1 (h.subset List.mem_cons_self)).resolve_right hb
          exact (List.singleton_sublist.2 hmem).cons_cons a

/-- Who began before another one did so before the other one was there. -/
theorem ArrivedBefore.back (h : w'.ArrivedBefore s i j) (hs : w.Steps e w') (hr : w'.Reachable)
    (hj : j ∈ w.arrivals s) : w.ArrivedBefore s i j := by
  have hn := hr.nodup_arrivals s
  unfold ArrivedBefore at h
  rw [hs.arrivals] at h hn
  exact sublist_of_append h fun hj' => (List.nodup_append.1 hn).2.2 j hj j hj' rfl

theorem not_sublist_swap {β : Type} {a b : β} {l : List β} (hn : l.Nodup) (h : [a, b].Sublist l) :
    ¬[b, a].Sublist l := by
  induction l with
  | nil => cases h
  | cons x xs ih =>
      obtain ⟨hx, hxs⟩ := List.nodup_cons.1 hn
      intro h'
      cases h with
      | cons _ h =>
          cases h' with
          | cons _ h' => exact ih hxs h h'
          | cons_cons _ h' => exact hx (h.subset (by simp))
      | cons_cons _ h =>
          cases h' with
          | cons _ h' => exact hx (h'.subset (by simp))
          | cons_cons _ h' => exact hx (h'.subset (by simp))

theorem ArrivedBefore.asymm (h : w.ArrivedBefore s i j) (hr : w.Reachable) : ¬w.ArrivedBefore s j i :=
  not_sublist_swap (hr.nodup_arrivals s) h

theorem ArrivedBefore.ne (h : w.ArrivedBefore s i j) (hr : w.Reachable) : i ≠ j := by
  have := h.nodup (hr.nodup_arrivals s)
  simpa using this

/-- One of two arrivals was the first. -/
theorem arrivedBefore_or (hi : i ∈ w.arrivals s) (hj : j ∈ w.arrivals s) (hij : i ≠ j) :
    w.ArrivedBefore s i j ∨ w.ArrivedBefore s j i := by
  obtain ⟨before, after, hl⟩ := List.append_of_mem hi
  unfold ArrivedBefore
  rw [hl] at hj ⊢
  rcases List.mem_append.1 hj with hj | hj
  · exact .inr (List.Sublist.append (List.singleton_sublist.2 hj) (List.singleton_sublist.2 List.mem_cons_self))
  · have hj := (List.mem_cons.1 hj).resolve_left (Ne.symm hij)
    exact .inl (((List.singleton_sublist.2 hj).cons_cons i).trans (List.sublist_append_right ..))

/-! ## The lock keeps the order -/

theorem Reachable.members_sublist (h : w.Reachable) (s : SupervisorId) :
    (w.client.supervisor s).lock.members.Sublist (w.arrivals s) := by
  induction h with
  | start => exact List.nil_sublist _
  | @step w w' e hr hs ih =>
      have hs := steps_of_step hs
      have horderly := hr.locking.orderly s
      have hleave (i : InvocationId) : ((w.client.supervisor s).lock.leave i).members.Sublist (w.arrivals s) := by
        rw [Lock.members_leave horderly]
        exact List.filter_sublist.trans ih
      rw [hs.arrivals]
      cases hs with
      | deed hf hd =>
          rw [Client.lock_perform? hd]
          simpa using ih
      | @begin j s' t c q hl hj hb =>
          have hnot := hr.locking.notMem hj s
          simp only [put]
          cases hb with
          | late => exact ih.trans (List.sublist_append_left ..)
          | cancelled =>
              rw [Client.lock_left]
              split
              · exact (hleave j).trans (List.sublist_append_left ..)
              · exact ih.trans (List.sublist_append_left ..)
          | joins =>
              rw [Client.lock_joined hl]
              split
              · rename_i hs'
                obtain rfl : s = s' := hs'
                rw [if_pos rfl, show (w.client.fresh j s t).id = j from rfl, Lock.members_join horderly hnot]
                exact ih.append (List.Sublist.refl _)
              · exact ih.trans (List.sublist_append_left ..)
      | @move j m p q c hf hj hm =>
          simp only [put, List.append_nil]
          rw [(Client.leads_of_move? hm).lock s]
          split
          · split
            · exact hleave _
            · exact ih
          · exact ih

/-- Who owns the lock began before all others that are under way. -/
theorem Reachable.owner_first (h : w.Reachable) (ho : (w.client.supervisor s).lock.owner = some i)
    (hj : w.UnderWay s j) (hij : j ≠ i) : w.ArrivedBefore s i j := by
  have hm := (h.locking.members s j).2 hj
  have hsub := h.members_sublist s
  simp only [Lock.members, ho, Option.toList_some, List.singleton_append, List.mem_cons] at hm hsub
  exact ((List.singleton_sublist.2 (hm.resolve_left hij)).cons_cons i).trans hsub

theorem Reachable.ended_before_owner (h : w.Reachable) (ho : (w.client.supervisor s).lock.owner = some j)
    (hb : w.ArrivedBefore s i j) : w.Ended i := by
  obtain ⟨p, hp, hs⟩ := h.mem_arrivals.1 (hb.subset List.mem_cons_self)
  by_cases hn : ∃ o, p.phase = .ended o
  · obtain ⟨o, hn⟩ := hn
    exact ⟨p, o, hp, hn⟩
  · have hu : w.UnderWay s i := ⟨p, hp, hs, fun o ho => hn ⟨o, ho⟩⟩
    exact absurd (h.owner_first ho hu (hb.ne h)) (hb.asymm h)

end Scene

end BrokerClient
