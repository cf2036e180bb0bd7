import BrokerClient.Proofs.Scene.Runs

/-!
# Ends

Whether an invocation has ended, and with what, is read off the trace (`Reachable.ended_of_mark`), and its end is the
last mark that it leaves (`Reachable.after_ended`).
-/
namespace BrokerClient

namespace Participant

variable {α : Type} {q : Participant α} {i : InvocationId}

theorem reached_of_ended {o : Outcome α} (h : q.phase = .ended o) : q.reached = [.ended q.invocation.id o] := by
  simp only [reached, h]

theorem phase_of_reached {o : Outcome α} (hk : .ended i o ∈ q.reached) :
    q.phase = .ended o ∧ q.invocation.id = i := by
  unfold reached at hk
  split at hk
  · rename_i ho
    cases List.mem_singleton.1 hk
    exact ⟨ho, rfl⟩
  · cases List.mem_singleton.1 hk
  · cases List.mem_singleton.1 hk
  · cases hk

end Participant

theorem Client.Leads.ne_rest_of_ended {α : Type} {c c' : Client} {v : Invocation} {m : Move α}
    {a : Option (Attempt α)} {q : Participant α} {o : Outcome α} (h : Leads c v m a c' q) (ho : q.phase = .ended o) :
    m ≠ .rest := by
  cases h with
  | looked | rested | unheld | discards | reuses | attaches | suppresses => cases ho
  | givenUp hm => exact hm
  | orphans _ hopens => exact hopens.ne_rest
  | throws hf => exact hf.ne_rest
  | succeeds _ hm => simp [hm]

namespace Scene

variable {α : Type} {w w' : Scene α} {e : Event α} {i : InvocationId} {p q : Participant α}

/-! ## Those who have ended -/

def Ended (w : Scene α) (i : InvocationId) : Prop :=
  ∃ p o, w.participants i = some p ∧ p.phase = .ended o

theorem ended_mem_marks {c : Client} {v : Invocation} {m : Move α} {o : Outcome α} :
    .ended i o ∈ marks c v m q → .ended i o ∈ q.reached := by
  intro hk
  unfold marks at hk
  split at hk
  · cases hk
  · refine (List.mem_append.1 hk).resolve_left fun hk => ?_
    obtain ⟨a, -, ha⟩ := Option.map_eq_some_iff.1 (Option.mem_toList.1 hk)
    cases ha

theorem Steps.unmoved (h : w.Steps e w') (hp : w.participants i = some p) (hm : ∀ m, e ≠ .move i m) :
    w'.participants i = some p := by
  rw [h.participants _ hm, hp]
  rintro s t rfl
  cases h with
  | begin hs hi hb => rw [hp] at hi; cases hi

theorem Steps.unmoved_of_ended {o : Outcome α} (h : w.Steps e w') (hp : w.participants i = some p)
    (ho : p.phase = .ended o) : ∀ m, e ≠ .move i m := by
  rintro m rfl
  cases h with
  | move hf hi hm =>
      rw [hp] at hi
      cases hi
      exact Client.phase_of_move? hm o ho

theorem Reachable.ended_of_mark {o : Outcome α} (h : w.Reachable) (hk : .ended i o ∈ w.trace) :
    ∃ p, w.participants i = some p ∧ p.phase = .ended o := by
  induction h with
  | start => cases hk
  | @step w w' e hr hs ih =>
      have hs := steps_of_step hs
      by_cases hold : .ended i o ∈ w.trace
      · obtain ⟨p, hp, ho⟩ := ih hold
        exact ⟨p, hs.unmoved hp (hs.unmoved_of_ended hp ho), ho⟩
      · cases hs with
        | deed hf hd => simp [hold] at hk
        | @begin j s t c q hl hj hb =>
            simp only [put, List.mem_append, hold, List.mem_cons, reduceCtorEq, false_or] at hk
            obtain ⟨ho, hid⟩ := Participant.phase_of_reached hk
            rw [hb.invocation] at hid
            exact ⟨q, if_pos hid.symm, ho⟩
        | @move j m p q c hf hj hm =>
            simp only [put, List.mem_append, hold, false_or] at hk
            obtain ⟨ho, hid⟩ := Participant.phase_of_reached (ended_mem_marks hk)
            rw [(Client.leads_of_move? hm).same.1, (hr.known hj).id] at hid
            exact ⟨q, if_pos hid.symm, ho⟩

theorem Reachable.participant_of_mark {k : Mark α} (h : w.Reachable) (hk : k ∈ w.trace) (hi : k.isOf i = true) :
    ∃ p, w.participants i = some p := by
  cases hp : w.participants i with
  | some p => exact ⟨p, rfl⟩
  | none =>
      have := h.unmarked hp k hk
      rw [hi] at this
      cases this

theorem Reachable.mark_of_ended {o : Outcome α} (h : w.Reachable) (hp : w.participants i = some p)
    (ho : p.phase = .ended o) : .ended i o ∈ w.trace := by
  have := h.participant (P := fun w p => ∀ o, p.phase = .ended o → .ended p.invocation.id o ∈ w.trace) ?_ ?_ ?_ hp o ho
  · rwa [(h.known hp).id] at this
  · intro w i s t c p _ _ _ _ o ho
    simp [put, Participant.reached_of_ended ho]
  · intro w i p m q c _ _ _ hm _ o ho
    simp [put, marks_of_ne_rest (hm.ne_rest_of_ended ho), Participant.reached_of_ended ho]
  · intro w w' e i p _ hs _ _ ih o ho
    obtain ⟨ms, ht⟩ := hs.trace
    rw [ht]
    exact List.mem_append_left _ (ih o ho)

/-- The second of two marks does not follow the end of its invocation. -/
def NotAfterEnd (x y : Mark α) : Prop :=
  ∀ i o, x = .ended i o → y.isOf i = false

theorem pairwise_reached (q : Participant α) : q.reached.Pairwise NotAfterEnd := by
  unfold Participant.reached
  split <;> simp

theorem Reachable.pairwise_trace (h : w.Reachable) : w.trace.Pairwise NotAfterEnd := by
  induction h with
  | start => exact .nil
  | @step w w' e hr hs ih =>
      have hs := steps_of_step hs
      have hlater {ms : List (Mark α)} (ht : w'.trace = w.trace ++ ms) : ∀ x ∈ w.trace, ∀ y ∈ ms, NotAfterEnd x y := by
        rintro _ hx y hy i o rfl
        obtain ⟨p, hp, ho⟩ := hr.ended_of_mark hx
        obtain ⟨ms', ht', hms⟩ := hs.marks_of_others hr hp (hs.unmoved_of_ended hp ho)
        obtain rfl : ms = ms' := List.append_cancel_left (ht.symm.trans ht')
        exact hms y hy
      cases hs with
      | deed => exact List.pairwise_append.2 ⟨ih, List.pairwise_singleton _ _, hlater rfl⟩
      | @begin j s t c q hl hj hb =>
          refine List.pairwise_append.2 ⟨ih, List.pairwise_cons.2 ⟨?_, pairwise_reached q⟩, hlater rfl⟩
          rintro _ _ _ _ ⟨⟩
      | @move j m p q c hf hj hm =>
          refine List.pairwise_append.2 ⟨ih, ?_, hlater rfl⟩
          unfold marks
          split
          · exact .nil
          · refine List.pairwise_append.2 ⟨?_, pairwise_reached q, ?_⟩
            · cases w.client.attempted? p.invocation m <;> simp
            · intro x hx _ _ i o hxo
              obtain ⟨a, -, rfl⟩ := Option.map_eq_some_iff.1 (Option.mem_toList.1 hx)
              cases hxo

/-- Nothing comes of an invocation after its end. -/
theorem Reachable.after_ended {o : Outcome α} {before after : List (Mark α)} {k : Mark α} (h : w.Reachable)
    (ht : w.trace = before ++ k :: after) (hk : k.isOf i = true) : .ended i o ∉ before := by
  intro hm
  have hpair := h.pairwise_trace
  rw [ht] at hpair
  have := (List.pairwise_append.1 hpair).2.2 _ hm k List.mem_cons_self i o rfl
  rw [hk] at this
  cases this

end Scene

end BrokerClient
