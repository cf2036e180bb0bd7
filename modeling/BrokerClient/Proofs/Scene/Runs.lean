import Mathlib.Data.List.Induction
import BrokerClient.Proofs.Scene.Terms

/-!
# Steps and runs

The ways of a step of a scene (`steps_of_step`), and what holds along every run: the trace only grows,
disposals and cancellations stay and are read off the trace, and a participant stays whose it is.
-/
namespace BrokerClient

namespace Client

variable {α : Type} {c : Client}

/-- The beginning of an invocation: too late, cancelled before it began, or in the lock or its queue. -/
inductive Begun (c : Client) (v : Invocation) : Client → Participant α → Prop where
  | late (hd : c.isDisposed v.supervisor = true) : Begun c v c ⟨v, .ended .disposed⟩
  | cancelled {t : Token} (hd : c.isDisposed v.supervisor = false) (ht : v.token = some t)
      (hc : t ∈ c.cancelled) : Begun c v (c.left v) ⟨v, .ended .cancelled⟩
  | joins (hd : c.isDisposed v.supervisor = false) (hi : c.interruption? (α := α) v = none) :
      Begun c v (c.joined v) ⟨v, .waiting⟩

theorem Begun.invocation {v : Invocation} {c' : Client} {q : Participant α} (h : Begun c v c' q) :
    q.invocation = v := by
  cases h <;> rfl

theorem Begun.keeps {v : Invocation} {c' : Client} {q : Participant α} (h : Begun c v c' q) : Keeps c c' := by
  cases h with
  | late => exact .refl c
  | cancelled => exact .left v
  | joins => exact .joined v

/-- An invocation that is about to begin. -/
def fresh (c : Client) (i : InvocationId) (s : SupervisorId) (t : Option Token) : Invocation :=
  { id := i, supervisor := s, token := t, backoff := (c.supervisor s).options.backoff }

theorem interruption?_eq_some {v : Invocation} {o : Outcome α} (h : c.interruption? v = some o) :
    (o = .aborted ∧ c.isDisposed v.supervisor = true) ∨
      (o = .cancelled ∧ c.isDisposed v.supervisor = false ∧ ∃ t, v.token = some t ∧ t ∈ c.cancelled) := by
  unfold interruption? at h
  split at h
  · rename_i hd; cases h; exact .inl ⟨rfl, hd⟩
  · rename_i hd
    split at h
    · rename_i ht
      cases h
      obtain ⟨t, ht, hc⟩ := Option.any_eq_true _ _ |>.1 ht
      exact .inr ⟨rfl, eq_false_of_ne_true hd, t, ht, by simpa using hc⟩
    · cases h

theorem interruption?_eq_none {v : Invocation} : c.interruption? (α := α) v = none ↔
    c.isDisposed v.supervisor = false ∧ ∀ t, v.token = some t → t ∉ c.cancelled := by
  unfold interruption?
  cases hd : c.isDisposed v.supervisor with
  | true => simp
  | false =>
      cases ht : v.token with
      | none => simp
      | some t => simp

theorem begun (c : Client) (i : InvocationId) (s : SupervisorId) (t : Option Token) :
    Begun (α := α) c (c.fresh i s t) (c.begin (α := α) i s t).1
      (c.begin (α := α) i s t).2 := by
  cases hd : c.isDisposed s with
  | true => simp only [begin, invoke, hd, if_true]; exact .late hd
  | false =>
      have hv : c.invoke (α := α) i s t = .waits (c.fresh i s t) := by
        simp only [invoke, hd]; rfl
      simp only [begin, hv]
      split
      · rename_i o hi
        rcases interruption?_eq_some hi with ⟨rfl, hd'⟩ | ⟨rfl, hd', t', ht, hc⟩
        · rw [show (c.fresh i s t).supervisor = s from rfl, hd] at hd'; cases hd'
        · exact .cancelled hd' ht hc
      · rename_i hi
        exact .joins hd hi

end Client

namespace Scene

variable {α : Type} {w w' : Scene α} {e : Event α} {i : InvocationId} {p q : Participant α}

/-! ## Steps -/

inductive Steps (w : Scene α) : Event α → Scene α → Prop where
  | deed {d : Deed} {c : Client} (hf : (w.direct && isForeign (α := α) (.deed d)) = false)
      (hp : w.client.perform? d = some c) :
      Steps w (.deed d) { w with client := c, trace := w.trace ++ [.deed d] }
  | begin {i : InvocationId} {s : SupervisorId} {t : Option Token} {c : Client} {p : Participant α}
      (hs : s.number < w.client.supervisors.length) (hi : w.participants i = none)
      (hb : w.client.Begun (w.client.fresh i s t) c p) :
      Steps w (.begin i s t) (w.put c i p (.began i s t :: p.reached))
  | move {i : InvocationId} {m : Move α} {p q : Participant α} {c : Client}
      (hf : (w.direct && isForeign (.move i m)) = false) (hi : w.participants i = some p)
      (hm : w.client.move? p m = some (c, q)) :
      Steps w (.move i m) (w.put c i q (marks w.client p.invocation m q))

theorem steps_of_step (h : w.step e = some w') : w.Steps e w' := by
  unfold step at h
  split at h
  · cases h
  · rename_i hf
    have hf := eq_false_of_ne_true hf
    cases e with
    | deed d =>
        simp only [Option.map_eq_some_iff] at h
        obtain ⟨c, hp, rfl⟩ := h
        exact .deed hf hp
    | begin i s t =>
        simp only at h
        split at h
        · rename_i hg
          cases h
          exact .begin hg.1 (by simpa using hg.2) (w.client.begun i s t)
        · cases h
    | move i m =>
        simp only [bind, Option.bind_eq_some_iff] at h
        obtain ⟨p, hi, ⟨c, q⟩, hm, hw⟩ := h
        cases hw
        exact .move hf hi hm

theorem step_move {m : Move α} {c : Client} (hf : (w.direct && isForeign (.move i m)) = false)
    (hp : w.participants i = some p) (hm : w.client.move? p m = some (c, q)) :
    w.step (.move i m) = some (w.put c i q (marks w.client p.invocation m q)) := by
  simp only [step, hf, Bool.false_eq_true, if_false, hp, hm, bind, Option.bind_some]
  rfl

theorem move_of_step {m : Move α} (h : w.step (.move i m) = some w') (hp : w.participants i = some p) :
    ∃ c q, w.client.move? p m = some (c, q) ∧ w' = w.put c i q (marks w.client p.invocation m q) := by
  cases steps_of_step h with
  | move hf hi hm =>
      rw [hp] at hi
      cases hi
      exact ⟨_, _, hm, rfl⟩

theorem step_begin {s : SupervisorId} {t : Option Token} (hs : s.number < w.client.supervisors.length)
    (hi : w.participants i = none) :
    w.step (.begin i s t) = some (w.put (w.client.begin (α := α) i s t).1 i (w.client.begin i s t).2
      (.began i s t :: (w.client.begin i s t).2.reached)) := by
  have hg : s.number < w.client.supervisors.length ∧ (w.participants i).isNone = true := ⟨hs, by rw [hi]; rfl⟩
  simp only [step, isForeign, Bool.and_false, Bool.false_eq_true, if_false, if_pos hg]

theorem Steps.direct (h : w.Steps e w') : w'.direct = w.direct := by
  cases h <;> rfl

theorem ne_openChannel_of_direct {d : Deed} (hd : w.direct = true)
    (hf : (w.direct && isForeign (α := α) (.deed d)) = false) : d ≠ .openChannel := by
  rintro rfl
  rw [hd] at hf
  cases hf

theorem ne_opened_of_direct {m : Move α} (hd : w.direct = true) (hf : (w.direct && isForeign (.move i m)) = false)
    (r : Except TransportError ChannelId) : m ≠ .answer (.opened r) := by
  rintro rfl
  rw [hd] at hf
  cases hf

/-! ## Runs -/

theorem run_append (w : Scene α) (es es' : List (Event α)) :
    w.run (es ++ es') = (w.run es).bind (fun w => w.run es') := by
  induction es generalizing w with
  | nil => rfl
  | cons e es ih =>
      simp only [List.cons_append, run]
      cases w.step e with
      | none => rfl
      | some w' => exact ih w'

theorem run_cons_eq_some {es : List (Event α)} :
    w.run (e :: es) = some w' ↔ ∃ w₁, w.step e = some w₁ ∧ w₁.run es = some w' := by
  simp only [run, Option.bind_eq_some_iff]

theorem Reachable.run {es : List (Event α)} (h : w.Reachable) (hr : w.run es = some w') : w'.Reachable := by
  induction es generalizing w with
  | nil => cases hr; exact h
  | cons e es ih =>
      obtain ⟨w₁, hs, hr⟩ := run_cons_eq_some.1 hr
      exact ih (h.step hs) hr

/-- What a run leads to, from what it evaluates to. -/
theorem map_of_run {β : Type} {es : List (Event α)} {b : β} (f : Scene α → β)
    (h : w.run es = some w') (hf : (w.run es).map f = some b) : f w' = b := by
  rw [h] at hf
  exact Option.some.inj hf

/-! ## What every step keeps -/

theorem Steps.grows (h : w.Steps e w') : w.client.Grows w'.client := by
  cases h with
  | deed hf hp => exact .perform? hp
  | begin hs hi hb => exact hb.keeps.grows
  | move hf hi hm => exact (Client.leads_of_move? hm).keeps.grows

theorem Steps.trace (h : w.Steps e w') : ∃ ms, w'.trace = w.trace ++ ms := by
  cases h <;> exact ⟨_, rfl⟩

theorem Steps.participants (h : w.Steps e w') (hd : ∀ s t, e ≠ .begin i s t) (hm : ∀ m, e ≠ .move i m) :
    w'.participants i = w.participants i := by
  cases h with
  | deed hf hp => rfl
  | @begin j s t _ _ _ _ _ =>
      have hne : i ≠ j := by rintro rfl; exact hd s t rfl
      simp only [put, if_neg hne]
  | @move j m _ _ _ _ _ _ =>
      have hne : i ≠ j := by rintro rfl; exact hm m rfl
      simp only [put, if_neg hne]

/-- Participants stay, with the same supervisor and the same token. -/
theorem Steps.persists (h : w.Steps e w') (hp : w.participants i = some p) :
    ∃ p', w'.participants i = some p' ∧ p'.invocation.supervisor = p.invocation.supervisor ∧
      p'.invocation.token = p.invocation.token := by
  cases h with
  | deed => exact ⟨p, hp, rfl, rfl⟩
  | @begin j s t c q hs hj hb =>
      have hij : i ≠ j := by rintro rfl; rw [hp] at hj; cases hj
      exact ⟨p, by simp only [put, if_neg hij, hp], rfl, rfl⟩
  | @move j m p' q c hf hj hm =>
      by_cases hij : i = j
      · subst hij
        rw [hp] at hj
        cases hj
        exact ⟨q, by simp only [put, if_true], (Client.leads_of_move? hm).same.2⟩
      · exact ⟨p, by simp only [put, if_neg hij, hp], rfl, rfl⟩

theorem persists_of_run {es : List (Event α)} (hrun : w.run es = some w') (hp : w.participants i = some p) :
    ∃ p', w'.participants i = some p' ∧ p'.invocation.supervisor = p.invocation.supervisor ∧
      p'.invocation.token = p.invocation.token := by
  induction es generalizing w p with
  | nil => cases hrun; exact ⟨p, hp, rfl, rfl⟩
  | cons e es ih =>
      obtain ⟨w₁, hs, hrun⟩ := run_cons_eq_some.1 hrun
      obtain ⟨p₁, hp₁, hsup₁, htok₁⟩ := (steps_of_step hs).persists hp
      obtain ⟨p', hp', hsup', htok'⟩ := ih hrun hp₁
      exact ⟨p', hp', hsup'.trans hsup₁, htok'.trans htok₁⟩

theorem direct_of_run {es : List (Event α)} (hrun : w.run es = some w') : w'.direct = w.direct := by
  induction es generalizing w with
  | nil => cases hrun; rfl
  | cons e es ih =>
      obtain ⟨w₁, hs, hrun⟩ := run_cons_eq_some.1 hrun
      exact (ih hrun).trans (steps_of_step hs).direct

/-- The step of a run in which a mark was left. -/
theorem step_of_mark {w₀ : Scene α} {es : List (Event α)} {before after : List (Mark α)} {k : Mark α}
    (h₀ : w₀.trace = []) (hrun : w₀.run es = some w) (ht : w.trace = before ++ k :: after) :
    ∃ es₁ e es₂ w₁ w₂ l l', es = es₁ ++ e :: es₂ ∧ w₀.run es₁ = some w₁ ∧ w₁.step e = some w₂ ∧
      before = w₁.trace ++ l ∧ w₂.trace = w₁.trace ++ (l ++ k :: l') := by
  induction es using List.reverseRecOn generalizing w before after with
  | nil =>
      cases hrun
      simp [h₀] at ht
  | append_singleton es e ih =>
      rw [run_append, Option.bind_eq_some_iff] at hrun
      obtain ⟨w₁, h₁, hlast⟩ := hrun
      obtain ⟨w₂, hs, h₂⟩ := run_cons_eq_some.1 hlast
      cases h₂
      obtain ⟨ms, hms⟩ := (steps_of_step hs).trace
      rw [hms] at ht
      rcases List.append_eq_append_iff.1 ht with ⟨l, hl, hmid⟩ | ⟨l, hw, hmid⟩
      · exact ⟨es, e, [], w₁, w, l, after, rfl, h₁, hs, hl, by rw [hms, hmid]⟩
      · cases l with
        | nil => exact ⟨es, e, [], w₁, w, [], after, rfl, h₁, hs, by simp [hw], by rw [hms, List.nil_append, hmid]; rfl⟩
        | cons x xs =>
            obtain ⟨rfl, -⟩ := List.cons.inj hmid
            obtain ⟨es₁, e', es₂, w₁', w₂', l, l', rfl, hrest⟩ := ih h₁ hw
            exact ⟨es₁, e', es₂ ++ [e], w₁', w₂', l, l', by simp, hrest⟩

/-- A participant is known by its number, and its supervisor exists. -/
structure Known (w : Scene α) (i : InvocationId) (v : Invocation) : Prop where
  id : v.id = i
  supervisor : v.supervisor.number < w.client.supervisors.length

theorem Known.grows {v : Invocation} (h : w.Known i v) (hg : w.client.Grows w'.client) : w'.Known i v :=
  ⟨h.id, Nat.lt_of_lt_of_le h.supervisor hg.length⟩

theorem Reachable.known (h : w.Reachable) (hp : w.participants i = some p) : w.Known i p.invocation := by
  induction h generalizing i p with
  | start => cases hp
  | @step w w' e hr hs ih =>
      have hs := steps_of_step hs
      have hg := hs.grows
      cases hs with
      | deed hf hd => exact (ih hp).grows hg
      | @begin j s t c q hl hi hb =>
          simp only [put] at hp
          split at hp
          · rename_i hij
            cases hp
            rw [hb.invocation, hij]
            exact ⟨rfl, Nat.lt_of_lt_of_le hl hg.length⟩
          · exact (ih hp).grows hg
      | @move j m p' q c hf hi hm =>
          simp only [put] at hp
          split at hp
          · rename_i hij
            cases hp
            obtain ⟨hid, hsup, -⟩ := (Client.leads_of_move? hm).same
            have hk := (ih hi).grows hg
            exact ⟨by rw [hid, hk.id, hij], by rw [hsup]; exact hk.supervisor⟩
          · exact (ih hp).grows hg

/-- What holds of each participant when it begins and is kept by its moves and by all that others do. -/
theorem Reachable.participant {P : Scene α → Participant α → Prop}
    (begun : ∀ (w : Scene α) (i : InvocationId) (s : SupervisorId) (t : Option Token) (c : Client)
      (p : Participant α), w.Reachable → s.number < w.client.supervisors.length →
      w.participants i = none → w.client.Begun (w.client.fresh i s t) c p →
      P (w.put c i p (.began i s t :: p.reached)) p)
    (moved : ∀ (w : Scene α) (i : InvocationId) (p : Participant α) (m : Move α) (q : Participant α)
      (c : Client), w.Reachable → w.Known i p.invocation → (∀ o, p.phase ≠ .ended o) →
      w.client.Leads p.invocation m (w.client.attempted? p.invocation m) c q → P w p →
      P (w.put c i q (marks w.client p.invocation m q)) q)
    (other : ∀ (w w' : Scene α) (e : Event α) (i : InvocationId) (p : Participant α), w.Reachable →
      w.Steps e w' → w.participants i = some p → (∀ m, e ≠ .move i m) → P w p → P w' p)
    (h : w.Reachable) (hp : w.participants i = some p) : P w p := by
  induction h generalizing i p with
  | start => cases hp
  | @step w w' e hr hs ih =>
      have hs := steps_of_step hs
      by_cases hm : ∃ m, e = .move i m
      · obtain ⟨m, rfl⟩ := hm
        cases hs with
        | @move _ _ p' _ c hf hi hm =>
            simp only [put, if_true] at hp
            cases hp
            exact moved w i p' m p c hr (hr.known hi) (Client.phase_of_move? hm)
              (Client.leads_of_move? hm) (ih hi)
      · by_cases hb : ∃ s t, e = .begin i s t
        · obtain ⟨s, t, rfl⟩ := hb
          cases hs with
          | @begin _ _ _ c _ hl hi hb =>
              simp only [put, if_true] at hp
              cases hp
              exact begun w i s t c p hr hl hi hb
        · have hm : ∀ m, e ≠ .move i m := fun m h => hm ⟨m, h⟩
          rw [hs.participants (fun s t h => hb ⟨s, t, h⟩) hm] at hp
          exact other w w' e i p hr hs hp hm (ih hp)

/-! ## The trace -/

theorem marks_of_ne_rest {c : Client} {v : Invocation} {m : Move α} {q : Participant α} (hm : m ≠ .rest) :
    marks c v m q = ((c.attempted? v m).map (Mark.attempted v.id)).toList ++ q.reached := by
  cases m with
  | rest => exact absurd rfl hm
  | enter | look | opens | answer => rfl

theorem deed_mem_reached {q : Participant α} {d : Deed} : .deed d ∉ q.reached := by
  simp only [Participant.reached]; split <;> simp

theorem deed_mem_marks {c : Client} {v : Invocation} {m : Move α} {q : Participant α} {d : Deed} :
    .deed d ∉ marks c v m q := by
  unfold marks
  split
  · simp
  · simp [deed_mem_reached]

theorem Steps.deed_mem_trace (h : w.Steps e w') (d : Deed) :
    .deed d ∈ w'.trace ↔ .deed d ∈ w.trace ∨ e = .deed d := by
  cases h with
  | deed hf hp => simp [eq_comm]
  | begin hs hi hb => simp [put, deed_mem_reached]
  | move hf hi hm => simp [put, deed_mem_marks]

theorem Reachable.disposed_iff (h : w.Reachable) (s : SupervisorId) :
    w.client.isDisposed s = true ↔ .deed (.dispose s) ∈ w.trace := by
  induction h with
  | start => simp [Scene.start, Client.isDisposed, Client.supervisor]
  | @step w w' e hr hs ih =>
      have hs := steps_of_step hs
      rw [hs.deed_mem_trace, ← ih]
      cases hs with
      | deed hf hd => rw [Client.isDisposed_perform? hd, Event.deed.injEq]
      | begin hs hi hb => simp [put, hb.keeps.disposed]
      | move hf hi hm => simp [put, (Client.leads_of_move? hm).keeps.disposed]

theorem Reachable.cancelled_iff (h : w.Reachable) (t : Token) :
    t ∈ w.client.cancelled ↔ .deed (.cancel t) ∈ w.trace := by
  induction h with
  | start => simp [Scene.start]
  | @step w w' e hr hs ih =>
      have hs := steps_of_step hs
      rw [hs.deed_mem_trace, ← ih]
      cases hs with
      | deed hf hd => rw [Client.mem_cancelled_perform? hd, Event.deed.injEq]
      | begin hs hi hb => simp [put, hb.keeps.cancelled]
      | move hf hi hm => simp [put, (Client.leads_of_move? hm).keeps.cancelled]

theorem isOf_reached {q : Participant α} {k : Mark α} (hk : k ∈ q.reached) :
    k.isOf i = decide (q.invocation.id = i) := by
  unfold Participant.reached at hk
  split at hk <;> simp at hk <;> subst k <;> rfl

theorem isOf_marks {c : Client} {v : Invocation} {m : Move α} {q : Participant α} {k : Mark α}
    (hv : q.invocation.id = v.id) (hk : k ∈ marks c v m q) : k.isOf i = decide (v.id = i) := by
  unfold marks at hk
  split at hk
  · cases hk
  · rcases List.mem_append.1 hk with hk | hk
    · obtain ⟨a, -, rfl⟩ := Option.map_eq_some_iff.1 (Option.mem_toList.1 hk)
      rfl
    · rw [isOf_reached hk, hv]

theorem eq_of_isOf_marks {c : Client} {v : Invocation} {m : Move α} {q : Participant α} {k : Mark α}
    (hv : q.invocation.id = v.id) (hk : k ∈ marks c v m q) (hi : k.isOf i = true) : v.id = i := by
  rw [isOf_marks hv hk] at hi
  exact of_decide_eq_true hi

/-- What others do leaves no mark of an invocation. -/
theorem Steps.marks_of_others (h : w.Steps e w') (hr : w.Reachable) (hp : w.participants i = some p)
    (hm : ∀ m, e ≠ .move i m) : ∃ ms, w'.trace = w.trace ++ ms ∧ ∀ k ∈ ms, k.isOf i = false := by
  cases h with
  | deed hf hd => exact ⟨_, rfl, by simp [Mark.isOf]⟩
  | @begin j s t c q hl hj hb =>
      have hne : j ≠ i := by rintro rfl; rw [hp] at hj; cases hj
      refine ⟨_, rfl, fun k hk => ?_⟩
      rcases List.mem_cons.1 hk with rfl | hk
      · exact decide_eq_false hne
      · rw [isOf_reached hk, hb.invocation]
        exact decide_eq_false hne
  | @move j m p' q c hf hj hm' =>
      have hne : j ≠ i := by rintro rfl; exact hm m rfl
      refine ⟨_, rfl, fun k hk => ?_⟩
      rw [isOf_marks (Client.leads_of_move? hm').same.1 hk, (hr.known hj).id]
      exact decide_eq_false hne

theorem Reachable.unmarked (h : w.Reachable) (hi : w.participants i = none) :
    ∀ k ∈ w.trace, k.isOf i = false := by
  induction h with
  | start => simp [Scene.start]
  | @step w w' e hr hs ih =>
      intro k hk
      have hs := steps_of_step hs
      cases hs with
      | deed hf hd =>
          rcases List.mem_append.1 hk with hk | hk
          · exact ih hi k hk
          · cases List.mem_singleton.1 hk; rfl
      | @begin j s t c q hl hj hb =>
          simp only [put] at hi hk
          split at hi
          · cases hi
          · rename_i hne
            have hne : j ≠ i := fun h => hne h.symm
            rcases List.mem_append.1 hk with hk | hk
            · exact ih hi k hk
            · rcases List.mem_cons.1 hk with rfl | hk
              · exact decide_eq_false hne
              · rw [isOf_reached hk, hb.invocation]
                exact decide_eq_false hne
      | @move j m p q c hf hj hm =>
          simp only [put] at hi hk
          split at hi
          · cases hi
          · rename_i hne
            have hne : j ≠ i := fun h => hne h.symm
            rcases List.mem_append.1 hk with hk | hk
            · exact ih hi k hk
            · rw [isOf_marks (Client.leads_of_move? hm).same.1 hk, (hr.known hj).id]
              exact decide_eq_false hne

/-! ## Attempts and calls of an invocation -/

theorem filterMap_attempt?_of_ne {ms : List (Mark α)} (h : ∀ k ∈ ms, k.isOf i = false) :
    ms.filterMap (Mark.attempt? i) = [] := by
  apply List.filterMap_eq_nil_iff.2
  intro k hk
  have := h k hk
  cases k <;> simp_all [Mark.attempt?, Mark.isOf]

theorem Reachable.attempts_of_none (h : w.Reachable) (hi : w.participants i = none) : w.attempts i = [] :=
  filterMap_attempt?_of_ne (h.unmarked hi)

@[simp] theorem attempts_put (w : Scene α) (c : Client) (j : InvocationId) (q : Participant α)
    (ms : List (Mark α)) (i : InvocationId) :
    (w.put c j q ms).attempts i = w.attempts i ++ ms.filterMap (Mark.attempt? i) :=
  List.filterMap_append

@[simp] theorem attempts_reached (q : Participant α) (i : InvocationId) :
    q.reached.filterMap (Mark.attempt? i) = [] := by
  unfold Participant.reached; split <;> rfl

theorem attempts_marks (c : Client) (v : Invocation) (m : Move α) (q : Participant α) (i : InvocationId) :
    (marks c v m q).filterMap (Mark.attempt? i) = if v.id = i then (c.attempted? v m).toList else [] := by
  unfold marks
  split
  · simp [Client.attempted?]
  · rw [List.filterMap_append, attempts_reached, List.append_nil]
    cases c.attempted? v m with
    | none => simp
    | some a => by_cases h : v.id = i <;> simp [Mark.attempt?, h]

end Scene

end BrokerClient
