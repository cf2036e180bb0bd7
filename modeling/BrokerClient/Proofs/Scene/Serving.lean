import BrokerClient.Proofs.Scene.Arrivals
import BrokerClient.Proofs.Scene.Outcomes

/-!
# Serving

A supervisor serves its invocations one at a time, in the order in which they arrived (`Reachable.serves`). What two
of them do past the lock never overlaps (`Reachable.apart`), and the lock is passed on by everyone who ends
(`Reachable.passes_lock_on`), so nobody waits for a lock that nobody will give up (`Reachable.waited_for`).
-/
namespace BrokerClient

namespace Mark

variable {α : Type}

/-- The invocation that is past the lock by this mark: it needs a channel, calls its action, or had an attempt come
out. -/
def worker? : Mark α → Option InvocationId
  | .opening i | .called i _ | .attempted i _ => some i
  | _ => none

theorem isOf_of_worker? {k : Mark α} {i : InvocationId} (h : k.worker? = some i) : k.isOf i = true := by
  cases k <;> simp_all [worker?, isOf]

theorem worker?_of_attempt? {k : Mark α} {i : InvocationId} {a : Attempt α} (h : k.attempt? i = some a) :
    k.worker? = some i := by
  cases k <;> simp_all [worker?, attempt?]

end Mark

theorem Participant.worker?_reached {α : Type} {q : Participant α} {k : Mark α} {i : InvocationId} (hk : k ∈ q.reached)
    (hw : k.worker? = some i) :
    q.phase = .waiting ∧ (q.invocation.stage = .opening ∨ ∃ ch, q.invocation.stage = .acting ch) := by
  unfold reached at hk
  split at hk
  · rw [List.mem_singleton.1 hk] at hw; cases hw
  · rename_i hp hs; exact ⟨hp, .inl hs⟩
  · rename_i hp hs; exact ⟨hp, .inr ⟨_, hs⟩⟩
  · cases hk

namespace Client

variable {α : Type} {c c' : Client} {v : Invocation} {m : Move α} {q : Participant α}

/-- A mark past the lock is left by who came past it before or owns the lock. -/
theorem Leads.owner_of_worker {k : Mark α} {i : InvocationId} (h : Leads c v m (c.attempted? v m) c' q)
    (hk : k ∈ Scene.marks c v m q) (hw : k.worker? = some i) :
    v.stage ≠ .queued ∨ (c.supervisor v.supervisor).lock.owner = some v.id := by
  have hm : m ≠ .rest := by rintro rfl; cases hk
  by_cases hn : ∃ o, q.phase = .ended o
  · -- The invocation ends, so the mark is that of its last attempt.
    obtain ⟨o, ho⟩ := hn
    rw [Scene.marks_of_ne_rest hm, Participant.reached_of_ended ho, List.mem_append, List.mem_singleton] at hk
    replace hk := hk.resolve_right (by rintro rfl; cases hw)
    generalize c.attempted? v m = a at h hk
    cases h with
    | looked | rested | unheld | discards | reuses | attaches | suppresses => cases ho
    | givenUp | orphans => simp at hk
    | throws hf => exact .inl hf.ne_queued
    | succeeds hs => exact .inl (by simp [hs])
  · have hn : ∀ o, q.phase ≠ .ended o := fun o ho => hn ⟨o, ho⟩
    exact h.granted hn (h.ne_queued hn hm)

end Client

namespace Scene

variable {α : Type} {w w' : Scene α} {e : Event α} {i j : InvocationId} {p q : Participant α} {s : SupervisorId}

/-! ## Work -/

/-- Only the owner of the lock works. -/
theorem Steps.owner_of_worker {ms : List (Mark α)} {k : Mark α} (h : w.Steps e w') (hr : w.Reachable)
    (ht : w'.trace = w.trace ++ ms) (hk : k ∈ ms) (hj : k.worker? = some j) :
    ∃ m p, e = .move j m ∧ w.participants j = some p ∧
      (w.client.supervisor p.invocation.supervisor).lock.owner = some j := by
  cases h with
  | deed hf hd =>
      obtain rfl := List.append_cancel_left ht
      rw [List.mem_singleton.1 hk] at hj
      cases hj
  | @begin i s t c q hl hi hb =>
      obtain rfl := List.append_cancel_left ht
      rcases List.mem_cons.1 hk with rfl | hk
      · cases hj
      · obtain ⟨hw, hs⟩ := Participant.worker?_reached hk hj
        rw [hb.invocation] at hs
        simp [Client.fresh] at hs
  | @move i m p q c hf hi hm =>
      obtain rfl := List.append_cancel_left ht
      have hl := Client.leads_of_move? hm
      obtain rfl : i = j :=
        (hr.known hi).id.symm.trans (eq_of_isOf_marks hl.same.1 hk (Mark.isOf_of_worker? hj))
      refine ⟨m, p, rfl, hi, ?_⟩
      rcases hl.owner_of_worker hk hj with hq | ho
      · exact hr.locking.owner i p hi (Client.phase_of_move? hm) hq
      · rwa [(hr.known hi).id] at ho

/-- An invocation that ends without having come past the lock was given up. -/
theorem Reachable.given_up {o : Outcome α} (h : w.Reachable) (hp : w.participants i = some p)
    (ho : p.phase = .ended o) :
    (∃ x ∈ w.trace, x.worker? = some i) ∨ o = .cancelled ∨ o = .aborted ∨ o = .disposed := by
  have hid := (h.known hp).id
  have hacc := h.accounted hp
  unfold Accounted at hacc
  simp only [ho] at hacc
  have hworked {as : List (Attempt α)} {a : Attempt α} (ha : w.attempts p.invocation.id = as ++ [a]) :
      ∃ x ∈ w.trace, x.worker? = some i := by
    have hm : a ∈ w.attempts i := by rw [← hid, ha]; simp
    obtain ⟨x, hx, hxa⟩ := List.mem_filterMap.1 hm
    exact ⟨x, hx, Mark.worker?_of_attempt? hxa⟩
  cases o with
  | ok a => exact .inl (let ⟨_, ha, _⟩ := hacc; hworked ha)
  | failed e => exact .inl (let ⟨_, _, ha, _⟩ := hacc; hworked ha)
  | cancelled => exact .inr (.inl rfl)
  | aborted => exact .inr (.inr (.inl rfl))
  | disposed => exact .inr (.inr (.inr rfl))

/-- Who works finds that all before him have ended: they have worked, or were given up. -/
theorem Reachable.in_order {before after : List (Mark α)} {y : Mark α} (h : w.Reachable)
    (ht : w.trace = before ++ y :: after) (hy : y.worker? = some j) (hb : w.ArrivedBefore s i j) :
    ∃ o, .ended i o ∈ before ∧
      ((∃ x ∈ before, x.worker? = some i) ∨ o = .cancelled ∨ o = .aborted ∨ o = .disposed) := by
  induction h generalizing before after with
  | start => simp [Scene.start] at ht
  | @step w w' e hr hs ih =>
      have hr' := hr.step hs
      have hs := steps_of_step hs
      obtain ⟨p', hp', hsup'⟩ := hr'.mem_arrivals.1 (hb.subset (by simp) : j ∈ w'.arrivals s)
      have hj {p : Participant α} (hp : w.participants j = some p) : p.invocation.supervisor = s := by
        obtain ⟨p₁, hp₁, hsup, -⟩ := hs.persists hp
        rw [hp'] at hp₁
        cases hp₁
        exact hsup.symm.trans hsup'
      obtain ⟨ms, hms⟩ := hs.trace
      have hnow (hm : y ∈ ms) (hpre : w.trace ⊆ before) : ∃ o, .ended i o ∈ before ∧
          ((∃ x ∈ before, x.worker? = some i) ∨ o = .cancelled ∨ o = .aborted ∨ o = .disposed) := by
        obtain ⟨m, p, -, hp, ho⟩ := hs.owner_of_worker hr hms hm hy
        rw [hj hp] at ho
        have hb := hb.back hs hr' (hr.mem_arrivals.2 ⟨p, hp, hj hp⟩)
        obtain ⟨q, o, hq, ho⟩ := hr.ended_before_owner ho hb
        refine ⟨o, hpre (hr.mark_of_ended hq ho), (hr.given_up hq ho).imp_left ?_⟩
        rintro ⟨x, hx, hxi⟩
        exact ⟨x, hpre hx, hxi⟩
      rw [hms] at ht
      rcases List.append_eq_append_iff.1 ht with ⟨l, rfl, hl⟩ | ⟨l, hw, hl⟩
      · exact hnow (by simp [hl]) (List.subset_append_left ..)
      · cases l with
        | nil =>
            obtain rfl : y :: after = ms := hl
            exact hnow List.mem_cons_self (by simp [hw])
        | cons x xs =>
            obtain ⟨rfl, -⟩ := List.cons.inj hl
            have hmem : y ∈ w.trace := by simp [hw]
            obtain ⟨p, hp⟩ := hr.participant_of_mark hmem (Mark.isOf_of_worker? hy)
            exact ih hw (hb.back hs hr' (hr.mem_arrivals.2 ⟨p, hp, hj hp⟩))

/-- Past the lock no two invocations overlap: the second one works when the first has ended. -/
theorem Reachable.apart {before between after : List (Mark α)} {x y : Mark α} (h : w.Reachable)
    (hi : i ∈ w.arrivals s) (hj : j ∈ w.arrivals s) (hij : i ≠ j) (hx : x.worker? = some i) (hy : y.worker? = some j)
    (ht : w.trace = before ++ x :: (between ++ y :: after)) :
    w.ArrivedBefore s i j ∧ ∃ o, .ended i o ∈ between := by
  have hty : w.trace = (before ++ x :: between) ++ y :: after := by simp [ht]
  rcases arrivedBefore_or hi hj hij with hb | hb
  · obtain ⟨o, ho, -⟩ := h.in_order hty hy hb
    refine ⟨hb, o, ?_⟩
    rcases List.mem_append.1 ho with ho | ho
    · exact absurd ho (h.after_ended ht (Mark.isOf_of_worker? hx))
    · exact (List.mem_cons.1 ho).resolve_left (by rintro rfl; cases hx)
  · obtain ⟨o, ho, -⟩ := h.in_order ht hx hb
    exact absurd (List.mem_append_left _ ho) (h.after_ended hty (Mark.isOf_of_worker? hy))

/-! ## Serving -/

/-- It waits for the lock, or has been handed it and has not gone on yet. -/
def Waits (w : Scene α) (s : SupervisorId) (i : InvocationId) : Prop :=
  ∃ p, w.participants i = some p ∧ p.invocation.supervisor = s ∧ p.phase = .waiting ∧ p.invocation.stage = .queued

def PastLock (w : Scene α) (s : SupervisorId) (i : InvocationId) : Prop :=
  ∃ p, w.participants i = some p ∧ p.invocation.supervisor = s ∧ (∀ o, p.phase ≠ .ended o) ∧
    p.invocation.stage ≠ .queued

theorem Waits.underWay (h : w.Waits s i) : w.UnderWay s i := by
  obtain ⟨p, hp, hs, hw, -⟩ := h
  exact ⟨p, hp, hs, by simp [hw]⟩

theorem PastLock.owner (h : w.PastLock s i) (hr : w.Reachable) : (w.client.supervisor s).lock.owner = some i := by
  obtain ⟨p, hp, rfl, hn, hq⟩ := h
  exact hr.locking.owner i p hp hn hq

theorem Reachable.pastLock_or_waits (h : w.Reachable) (hu : w.UnderWay s i) : w.PastLock s i ∨ w.Waits s i := by
  obtain ⟨p, hp, hs, hn⟩ := hu
  by_cases hq : p.invocation.stage = .queued
  · refine .inr ⟨p, hp, hs, ?_, hq⟩
    cases hph : p.phase with
    | waiting => rfl
    | turning => exact absurd hq (h.ne_queued hp hph)
    | ended o => exact absurd hph (hn o)
  · exact .inl ⟨p, hp, hs, hn, hq⟩

/-- How a supervisor serves its invocations: one at a time, as they arrived, and with no hand-over of the lock lost. -/
structure Serves (w : Scene α) (s : SupervisorId) : Prop where
  /-- At most one invocation is past the lock. -/
  single : ∀ i j, w.PastLock s i → w.PastLock s j → i = j
  /-- What two invocations do past the lock does not overlap. -/
  apart : ∀ i ∈ w.arrivals s, ∀ j ∈ w.arrivals s, ∀ before x between y after, i ≠ j → x.worker? = some i →
    y.worker? = some j → w.trace = before ++ x :: (between ++ y :: after) →
    w.ArrivedBefore s i j ∧ ∃ o, .ended i o ∈ between
  /-- Who works past the lock finds that all who arrived before have ended: past the lock, or given up. -/
  in_order : ∀ i j before y after, w.ArrivedBefore s i j → y.worker? = some j → w.trace = before ++ y :: after →
    ∃ o, .ended i o ∈ before ∧
      ((∃ x ∈ before, x.worker? = some i) ∨ o = .cancelled ∨ o = .aborted ∨ o = .disposed)
  /-- The owner of the lock arrived first of all that are under way. -/
  first : ∀ o j, (w.client.supervisor s).lock.owner = some o → w.UnderWay s j → j ≠ o → w.ArrivedBefore s o j
  /-- Its owner keeps the lock until it ends. -/
  keeps : ∀ e w' o, w.step e = some w' → (w.client.supervisor s).lock.owner = some o →
    (w'.client.supervisor s).lock.owner = some o ∨ w'.Ended o
  /-- Who ends hands the lock to the first in the queue, or gives up its place there. -/
  passes_on : ∀ e w' i, w.step e = some w' → w.UnderWay s i → w'.Ended i →
    (w'.client.supervisor s).lock =
      if (w.client.supervisor s).lock.owner = some i
      then ⟨(w.client.supervisor s).lock.queue.head?, (w.client.supervisor s).lock.queue.tail⟩
      else ⟨(w.client.supervisor s).lock.owner, (w.client.supervisor s).lock.queue.filter (· ≠ i)⟩
  /-- While somebody waits, the lock is owned by one who is past it or who waited longest, and who can go on. -/
  waited_for : ∀ i, w.Waits s i → ∃ o, (w.client.supervisor s).lock.owner = some o ∧
    (w.PastLock s o ∨ w.Waits s o ∧ ∀ j, w.Waits s j → j ≠ o → w.ArrivedBefore s o j) ∧
    ∃ m w', w.step (.move o m) = some w' ∧ (m = .look ∨ w.markCount o < w'.markCount o)

theorem Steps.keeps_lock {o : InvocationId} (h : w.Steps e w') (hr : w.Reachable)
    (ho : (w.client.supervisor s).lock.owner = some o) :
    (w'.client.supervisor s).lock.owner = some o ∨ w'.Ended o := by
  cases h with
  | deed hf hd =>
      rw [Client.lock_perform? hd]
      exact .inl ho
  | @begin i s' t c q hl hi hb =>
      refine .inl ?_
      simp only [put]
      cases hb with
      | late => exact ho
      | cancelled =>
          have hne : o ≠ i := by
            rintro rfl
            exact hr.locking.notMem hi s (Lock.owner_mem ho)
          rw [Client.lock_left]
          split
          · exact Lock.owner_leave ho hne
          · exact ho
      | joins =>
          rw [Client.lock_joined hl]
          split
          · exact Lock.owner_join ho _
          · exact ho
  | @move i m p q c hf hi hm =>
      have hl := Client.leads_of_move? hm
      simp only [put]
      rw [hl.lock s, (hr.known hi).id]
      split
      · rename_i x hx
        by_cases hio : o = i
        · exact .inr ⟨q, x, if_pos hio, hx⟩
        · refine .inl ?_
          split
          · exact Lock.owner_leave ho hio
          · exact ho
      · exact .inl ho

theorem Reachable.passes_lock_on (hr : w.Reachable) (h : w.step e = some w') (hu : w.UnderWay s i) (hd : w'.Ended i) :
    (w'.client.supervisor s).lock = (w.client.supervisor s).lock.leave i := by
  obtain ⟨p, hp, rfl, hn⟩ := hu
  obtain ⟨p', o, hp', ho⟩ := hd
  by_cases hm : ∃ m, e = .move i m
  · obtain ⟨m, rfl⟩ := hm
    obtain ⟨c, q, hm, rfl⟩ := move_of_step h hp
    obtain rfl : q = p' := Option.some.inj ((if_pos rfl).symm.trans hp')
    simp only [put]
    rw [(Client.leads_of_move? hm).lock, (hr.known hp).id]
    simp only [ho, if_true]
  · rw [(steps_of_step h).unmoved hp fun m he => hm ⟨m, he⟩] at hp'
    cases hp'
    exact absurd ho (hn o)

theorem Reachable.waited_for (h : w.Reachable) (hw : w.Waits s i) :
    ∃ o, (w.client.supervisor s).lock.owner = some o ∧ w.UnderWay s o ∧
      ∃ m w', w.step (.move o m) = some w' ∧ (m = .look ∨ w.markCount o < w'.markCount o) := by
  have hl := h.locking
  have hm := (hl.members s i).2 hw.underWay
  cases ho : (w.client.supervisor s).lock.owner with
  | none =>
      simp only [Lock.members, ho, (hl.orderly s).free ho] at hm
      cases hm
  | some o =>
      have hu := (hl.members s o).1 (Lock.owner_mem ho)
      obtain ⟨p, hp, rfl, hn⟩ := hu
      refine ⟨o, rfl, ⟨p, hp, rfl, hn⟩, h.goes_on hp hn fun _ => ?_⟩
      rw [ho, (h.known hp).id]

theorem Reachable.serves (h : w.Reachable) (s : SupervisorId) : w.Serves s where
  single i j hi hj := Option.some.inj ((hi.owner h).symm.trans (hj.owner h))
  apart i hi j hj before x between y after hij hx hy ht := h.apart hi hj hij hx hy ht
  in_order i j before y after hb hy ht := h.in_order ht hy hb
  first o j ho hj hjo := h.owner_first ho hj hjo
  keeps e w' o hs ho := (steps_of_step hs).keeps_lock h ho
  passes_on e w' i hs hu hd := by
    rw [h.passes_lock_on hs hu hd]
    split
    · rename_i ho; exact Lock.leave_of_owner ho
    · rename_i ho; exact Lock.leave_of_ne ho
  waited_for i hw := by
    obtain ⟨o, ho, hu, hgo⟩ := h.waited_for hw
    exact ⟨o, ho, (h.pastLock_or_waits hu).imp_right fun hw =>
      ⟨hw, fun j hj hjo => h.owner_first ho hj.underWay hjo⟩, hgo⟩

/-- Of four invocations the first one comes to its end, the second one is cancelled in the queue, and the third one
goes on with the lock. -/
def handedOn : List (Event Nat) :=
  [.deed (.supervise {}), .begin ⟨0⟩ ⟨0⟩ none, .move ⟨0⟩ .enter, .begin ⟨1⟩ ⟨0⟩ (some ⟨"t"⟩), .begin ⟨2⟩ ⟨0⟩ none,
    .begin ⟨3⟩ ⟨0⟩ none, .deed (.cancel ⟨"t"⟩), .move ⟨0⟩ .look, .move ⟨0⟩ .opens, .move ⟨0⟩ .look,
    .move ⟨0⟩ (.answer (.acted (.ok 7))), .move ⟨1⟩ .enter, .move ⟨2⟩ .enter]

theorem serves_handedOn : ∃ w, (start true true).run handedOn = some w ∧ w.arrivals ⟨0⟩ = [⟨0⟩, ⟨1⟩, ⟨2⟩, ⟨3⟩] ∧
    w.PastLock ⟨0⟩ ⟨2⟩ ∧ w.Waits ⟨0⟩ ⟨3⟩ ∧ w.Serves ⟨0⟩ := by
  obtain ⟨w, hw⟩ := Option.isSome_iff_exists.1 (rfl : ((start true true).run handedOn).isSome = true)
  have hr := (Reachable.start true true).run hw
  have harrivals : w.arrivals ⟨0⟩ = [⟨0⟩, ⟨1⟩, ⟨2⟩, ⟨3⟩] := map_of_run (·.arrivals ⟨0⟩) hw rfl
  have h₂ : w.participants ⟨2⟩ = some ⟨⟨⟨2⟩, ⟨0⟩, none, ({} : Options).backoff, 1, .acting ⟨1⟩⟩, .waiting⟩ :=
    map_of_run (·.participants ⟨2⟩) hw rfl
  have h₃ : w.participants ⟨3⟩ = some ⟨⟨⟨3⟩, ⟨0⟩, none, ({} : Options).backoff, 0, .queued⟩, .waiting⟩ :=
    map_of_run (·.participants ⟨3⟩) hw rfl
  exact ⟨w, hw, harrivals, ⟨_, h₂, rfl, by simp, by simp⟩, ⟨_, h₃, rfl, rfl, rfl⟩, hr.serves ⟨0⟩⟩

end Scene

end BrokerClient
