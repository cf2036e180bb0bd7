import BrokerClient.Proofs.Scene.Runs

/-!
# Attempts and calls

An action is called once for each attempt that comes as far as its action, and an attempt leaves a bounded
number of marks (`Counted`). So an invocation that can always go on (`goes_on`) and makes boundedly many
attempts comes to its end.
-/
namespace BrokerClient

namespace Participant

variable {α : Type}

/-- Its action was called, and no answer came. -/
def isCalling (p : Participant α) : Bool :=
  match p.phase, p.invocation.stage with
  | .ended (.ok _), _ | .ended (.failed _), _ => false
  | _, .acting _ => true
  | _, _ => false

/-- How many marks there may be besides three for each attempt. -/
def allowance (p : Participant α) : Nat :=
  match p.phase, p.invocation.stage with
  | .ended _, _ => 4
  | _, .queued | _, .delaying _ => 1
  | _, .opening => 2
  | _, .acting _ => 3

end Participant

namespace Scene

variable {α : Type} {w w' : Scene α} {e : Event α} {i : InvocationId} {p q : Participant α} {v : Invocation}

/-! ## Counting marks -/

def markCount (w : Scene α) (i : InvocationId) : Nat :=
  w.trace.countP (Mark.isOf i)

theorem countP_isOf_of_forall {ms : List (Mark α)} {b : Bool} (h : ∀ k ∈ ms, k.isOf i = b) :
    ms.countP (Mark.isOf i) = if b then ms.length else 0 := by
  cases b with
  | true => simpa using List.countP_eq_length.2 h
  | false => simpa using h

theorem markCount_put (c : Client) (j : InvocationId) (q : Participant α) (ms : List (Mark α)) :
    (w.put c j q ms).markCount i = w.markCount i + ms.countP (Mark.isOf i) :=
  List.countP_append

theorem countP_marks {c : Client} {m : Move α} (hq : q.invocation.id = v.id) :
    (marks c v m q).countP (Mark.isOf i) = if v.id = i then (marks c v m q).length else 0 := by
  rw [countP_isOf_of_forall (fun k hk => isOf_marks hq hk)]
  simp

@[simp] theorem calls_put (w : Scene α) (c : Client) (j : InvocationId) (q : Participant α)
    (ms : List (Mark α)) (i : InvocationId) :
    (w.put c j q ms).calls i = w.calls i ++ ms.filterMap (Mark.call? i) :=
  List.filterMap_append

theorem filterMap_call?_of_ne {ms : List (Mark α)} (h : ∀ k ∈ ms, k.isOf i = false) :
    ms.filterMap (Mark.call? i) = [] := by
  apply List.filterMap_eq_nil_iff.2
  intro k hk
  have := h k hk
  cases k <;> simp_all [Mark.call?, Mark.isOf]

/-- How the calls, attempts and marks of a participant go together. -/
structure Counted (w : Scene α) (p : Participant α) : Prop where
  calls : (w.calls p.invocation.id).length =
    (w.attempts p.invocation.id).countP Attempt.isAction + if p.isCalling then 1 else 0
  marks : w.markCount p.invocation.id ≤ 3 * (w.attempts p.invocation.id).length + p.allowance

theorem Counted.other (h : w.Counted p) (hs : w.Steps e w') (hr : w.Reachable)
    (hp : w.participants i = some p) (hm : ∀ m, e ≠ .move i m) : w'.Counted p := by
  have hid := (hr.known hp).id
  obtain ⟨ms, ht, hk⟩ := hs.marks_of_others hr hp hm
  obtain ⟨hc, hmk⟩ := h
  rw [hid] at hc hmk
  have ha := filterMap_attempt?_of_ne hk
  have hcl := filterMap_call?_of_ne hk
  have hct := countP_isOf_of_forall hk
  constructor
  · simpa [hid, Scene.calls, attempts, ht, ha, hcl] using hc
  · simpa [hid, markCount, attempts, ht, ha, hct] using hmk

theorem counted_of_begun {s : SupervisorId} {t : Option Token} {c : Client} (hr : w.Reachable)
    (hi : w.participants i = none) (hb : w.client.Begun (w.client.fresh i s t) c p) :
    (w.put c i p (.began i s t :: p.reached)).Counted p := by
  have hu := hr.unmarked hi
  have ha : w.attempts i = [] := filterMap_attempt?_of_ne hu
  have hc : w.calls i = [] := filterMap_call?_of_ne hu
  have hk : w.markCount i = 0 := countP_isOf_of_forall hu
  have hid : p.invocation.id = i := by rw [hb.invocation]; rfl
  constructor
  · rw [hid, calls_put, attempts_put, ha, hc]
    cases hb <;> rfl
  · rw [hid, markCount_put, attempts_put, ha, hk]
    cases hb <;> simp [Participant.reached, Participant.allowance, Client.fresh, Mark.isOf]

/-- The account of a participant that goes on, from what a move adds to it. -/
theorem Counted.step {m : Move α} {c : Client} {a : Option (Attempt α)} (h : w.Counted p) (hm : m ≠ .rest)
    (hq : q.invocation.id = p.invocation.id) (ha : w.client.attempted? p.invocation m = a)
    (hcalls : (if p.isCalling then 1 else 0) + (q.reached.filterMap (Mark.call? p.invocation.id)).length =
      a.toList.countP Attempt.isAction + if q.isCalling then 1 else 0)
    (hmarks : p.allowance + a.toList.length + q.reached.length ≤ 3 * a.toList.length + q.allowance) :
    (w.put c p.invocation.id q (Scene.marks w.client p.invocation m q)).Counted q := by
  obtain ⟨hc, hk⟩ := h
  have hcall : (a.map (Mark.attempted p.invocation.id)).toList.filterMap (Mark.call? p.invocation.id) = [] := by
    cases a <;> simp [Mark.call?]
  have hlen : (a.map (Mark.attempted p.invocation.id)).toList.length = a.toList.length := by
    cases a <;> rfl
  constructor
  · rw [hq, calls_put, attempts_put, attempts_marks, if_pos rfl, ha, marks_of_ne_rest hm, ha,
      List.filterMap_append, hcall, List.nil_append, List.length_append, List.countP_append, hc]
    omega
  · rw [hq, markCount_put, attempts_put, attempts_marks, if_pos rfl, ha, countP_marks hq, if_pos rfl,
      marks_of_ne_rest hm, ha, List.length_append, List.length_append, hlen]
    omega

theorem isCalling_of_live (hn : ∀ o, p.phase ≠ .ended o) :
    p.isCalling = match p.invocation.stage with | .acting _ => true | _ => false := by
  obtain ⟨v, ph⟩ := p
  cases ph with
  | ended o => exact absurd rfl (hn o)
  | waiting | turning => cases hv : v.stage <;> simp [Participant.isCalling, hv]

theorem allowance_of_live (hn : ∀ o, p.phase ≠ .ended o) :
    p.allowance = match p.invocation.stage with
      | .queued | .delaying _ => 1
      | .opening => 2
      | .acting _ => 3 := by
  obtain ⟨v, ph⟩ := p
  cases ph with
  | ended o => exact absurd rfl (hn o)
  | waiting | turning => cases hv : v.stage <;> simp [Participant.allowance, hv]

theorem counted_of_leads {m : Move α} {c : Client} (hn : ∀ o, p.phase ≠ .ended o) (hc : w.Counted p)
    (h : w.client.Leads p.invocation m (w.client.attempted? p.invocation m) c q) :
    (w.put c p.invocation.id q (marks w.client p.invocation m q)).Counted q := by
  have hcall := isCalling_of_live hn
  have hall := allowance_of_live hn
  have hid := h.same.1
  generalize ha : w.client.attempted? p.invocation m = a at h
  -- In each case first the calls against the attempts, then the marks against the allowance.
  cases h with
  | looked hm =>
      refine hc.step (by simp [hm]) hid ha ?_ ?_
      · rw [hcall, isCalling_of_live (by simp)]; simp [Participant.reached]
      · rw [hall, allowance_of_live (by simp)]; simp [Participant.reached]
  | rested hm =>
      subst hm
      obtain ⟨hc, hk⟩ := hc
      rw [hcall] at hc
      rw [hall] at hk
      constructor
      · rw [isCalling_of_live (by simp)]; simpa [marks] using hc
      · rw [allowance_of_live (by simp)]; simpa [marks, markCount_put] using hk
  | givenUp hm hi =>
      refine hc.step hm hid ha ?_ ?_
      · rw [hcall]
        rcases Client.interruption?_eq_some hi with ⟨rfl, -⟩ | ⟨rfl, -⟩ <;>
          cases hs : p.invocation.stage <;> simp [Participant.reached, Participant.isCalling, hs, Mark.call?]
      · rw [hall]
        cases hs : p.invocation.stage <;> simp [Participant.reached, Participant.allowance]
  | unheld hb | discards hb =>
      refine hc.step hb.ne_rest hid ha ?_ ?_
      · rw [hcall]
        cases hb with
        | granted hs | again hs => simp [Participant.reached, Participant.isCalling, hs, Mark.call?]
      · rw [hall]
        cases hb with
        | granted hs | again hs => simp [Participant.reached, Participant.allowance, hs]
  | reuses hb =>
      refine hc.step hb.ne_rest hid ha ?_ ?_
      · rw [hcall]
        cases hb with
        | granted hs | again hs => simp [Participant.reached, Participant.isCalling, hs, Mark.call?]
      · rw [hall]
        cases hb with
        | granted hs | again hs => simp [Participant.reached, Participant.allowance, hs]
  | attaches hs ho =>
      refine hc.step ho.ne_rest hid ha ?_ ?_
      · rw [hcall]; simp [Participant.reached, Participant.isCalling, hs, Mark.call?]
      · rw [hall]; simp [Participant.reached, Participant.allowance, hs]
  | orphans hs ho =>
      refine hc.step ho.ne_rest hid ha ?_ ?_
      · rw [hcall]; simp [Participant.reached, Participant.isCalling, hs, Mark.call?]
      · rw [hall]; simp [Participant.reached, Participant.allowance, hs]
  | throws hf hv =>
      refine hc.step hf.ne_rest hid ha ?_ ?_
      · rw [hcall]
        cases hf with
        | unopened hs | unattached hs | acted hs =>
            simp [Participant.reached, Participant.isCalling, hs, Mark.call?, Attempt.isAction]
      · rw [hall]
        cases hs : p.invocation.stage <;> simp [Participant.reached, Participant.allowance]
  | suppresses hf hv =>
      refine hc.step hf.ne_rest hid ha ?_ ?_
      · rw [hcall]
        cases hf with
        | unopened hs | unattached hs | acted hs =>
            simp [Participant.reached, Participant.isCalling, hs, Attempt.isAction]
      · rw [hall]
        cases hs : p.invocation.stage <;> simp [Participant.reached, Participant.allowance]
  | succeeds hs hm =>
      refine hc.step (by simp [hm]) hid ha ?_ ?_
      · rw [hcall]; simp [Participant.reached, Participant.isCalling, hs, Mark.call?, Attempt.isAction]
      · rw [hall]; simp [Participant.reached, Participant.allowance, hs]

theorem Reachable.counted (h : w.Reachable) (hp : w.participants i = some p) : w.Counted p := by
  refine h.participant ?_ ?_ ?_ hp
  · intro w i s t c p hr _ hi hb
    exact counted_of_begun hr hi hb
  · intro w i p m q c hr hk hn hm ih
    have := counted_of_leads hn ih hm
    rwa [hk.id] at this
  · intro w w' e i p hr hs hp hm ih
    exact ih.other hs hr hp hm

/-! ## Going on -/

theorem Reachable.ne_queued (h : w.Reachable) (hp : w.participants i = some p) (ht : p.phase = .turning) :
    p.invocation.stage ≠ .queued := by
  refine h.participant (P := fun _ p => p.phase = .turning → p.invocation.stage ≠ .queued) ?_ ?_ ?_ hp ht
  · intro w i s t c p _ _ _ hb ht
    cases hb <;> cases ht
  · intro w i p m q c _ _ _ hm _ ht
    generalize w.client.attempted? p.invocation m = a at hm
    cases hm with
    | looked _ hq => exact hq
    | rested | givenUp | unheld | discards | reuses | attaches | orphans | throws | suppresses | succeeds =>
        cases ht
  · intro w w' e i p _ _ _ _ ih
    exact ih

/-- A move that is not a look or a rest leaves a mark. -/
theorem marked_of_leads {c : Client} {m : Move α} {a : Option (Attempt α)} (hl : m ≠ .look) (hr : m ≠ .rest)
    (h : w.client.Leads v m a c q) : 0 < a.toList.length + q.reached.length := by
  cases h with
  | looked hm => exact absurd hm hl
  | rested hm => exact absurd hm hr
  | givenUp | unheld | discards | reuses | attaches | orphans | throws | suppresses | succeeds =>
      simp [Participant.reached]

/-- The invocation has its lock: it owns it, or it went on with it before. -/
def Holds (w : Scene α) (v : Invocation) : Prop :=
  v.stage = .queued → (w.client.supervisor v.supervisor).lock.owner = some v.id

/-- The moves of an invocation with the lock: it goes on with it, looks, or is answered. -/
theorem exists_move (hn : ∀ o, p.phase ≠ .ended o) (hq : p.phase = .turning → p.invocation.stage ≠ .queued)
    (hl : w.Holds p.invocation) :
    ∃ m c q, w.client.move? p m = some (c, q) ∧ m ≠ .rest ∧ isForeign (.move i m) = false := by
  obtain ⟨v, ph⟩ := p
  cases ph with
  | ended o => exact absurd rfl (hn o)
  | waiting =>
      by_cases hs : v.stage = .queued
      · have howner := hl hs
        exact ⟨.enter, _, _, by simp only [Client.move?]; rw [if_pos ⟨hs, .inr howner⟩], by simp, rfl⟩
      · refine ⟨.look, ?_⟩
        simp only [Client.move?, if_neg hs]
        split <;> exact ⟨_, _, rfl, by simp, rfl⟩
  | turning =>
      cases hs : v.stage with
      | queued => exact absurd hs (hq rfl)
      | opening => exact ⟨.opens, _, _, by simp only [Client.move?]; rw [if_pos hs], by simp, rfl⟩
      | acting ch =>
          have hf : (Client.Answer.acted (α := α) (.error (.interrupted none))).isFor v.stage := by rw [hs]; rfl
          exact ⟨.answer _, _, _, by simp only [Client.move?]; rw [if_pos hf], by simp, rfl⟩
      | delaying d =>
          have hf : (Client.Answer.elapsed (α := α)).isFor v.stage := by rw [hs]; rfl
          exact ⟨.answer _, _, _, by simp only [Client.move?]; rw [if_pos hf], by simp, rfl⟩

/-- An invocation with the lock can go on until it ends, and leaves a mark unless it only looks. -/
theorem Reachable.goes_on (h : w.Reachable) (hp : w.participants i = some p) (hn : ∀ o, p.phase ≠ .ended o)
    (hl : w.Holds p.invocation) :
    ∃ m w', w.step (.move i m) = some w' ∧ (m = .look ∨ w.markCount i < w'.markCount i) := by
  obtain ⟨m, c, q, hm, hr, hf⟩ := exists_move (i := i) hn (h.ne_queued hp) hl
  refine ⟨m, _, step_move (by rw [hf, Bool.and_false]) hp hm, ?_⟩
  by_cases hlook : m = .look
  · exact .inl hlook
  · have hled := Client.leads_of_move? hm
    have hpos := marked_of_leads hlook hr hled
    have hlen : (marks w.client p.invocation m q).length =
        (w.client.attempted? p.invocation m).toList.length + q.reached.length := by
      rw [marks_of_ne_rest hr, List.length_append]
      cases w.client.attempted? p.invocation m <;> rfl
    refine .inr ?_
    rw [markCount_put, countP_marks hled.same.1, if_pos (h.known hp).id, hlen]
    omega

end Scene

end BrokerClient
