import BrokerClient.Proofs.Scene.Journal
import BrokerClient.Proofs.Scene.Outcomes

/-!
# The numbers of attempts

The counter of an invocation is the number of the attempt that it has begun last, as far as that fits
(`Reachable.counts`). So the reports of the failures after which an invocation goes on are numbered from one on until the
counter is full, and then from zero again. Only a disposal or a cancellation keeps the next attempt back
(`Reachable.retries_numbered`).

An invocation can fail without an end (`run_denied`), and 2 ^ 32 failures are more than its counter has room for
(`not_always_numbered`).
-/
namespace BrokerClient

/-- An attempt is under way. -/
def Stage.isTrying : Stage → Bool
  | .opening | .acting _ => true
  | .queued | .delaying _ => false

/-- The report of a failure after which another attempt follows. -/
def Log.Record.isRetry (r : Log.Record) : Bool :=
  r.message = "channel action failed, retrying"

theorem Verdict.isRetry_report (k : Verdict) (n : UInt32) (f : TransportError) (d : Option Duration) :
    (k.report n f d).isRetry = !d.isNone := by
  cases d <;> rfl

theorem Verdict.attempt_report (k : Verdict) (n : UInt32) (f : TransportError) (d : Option Duration) :
    (k.report n f d).fields.lookup "attempt" = some (toString n.toNat) := by
  cases d <;> rfl

theorem Client.Begins.isTrying {α : Type} {c : Client} {v : Invocation} {m : Move α} (h : c.Begins v m) :
    v.stage.isTrying = false := by
  cases h with
  | granted hs | again hs => rw [hs]; rfl

theorem Client.Fails.isTrying {α : Type} {c c' : Client} {v : Invocation} {m : Move α} {a : Attempt α}
    {f : TransportError} (h : c.Fails v m a c' f) : v.stage.isTrying = true := by
  cases h with
  | unopened hs | unattached hs | acted hs => rw [hs]; rfl

namespace Scene

variable {α : Type} {w w' : Scene α} {e : Event α} {i j : InvocationId} {p q : Participant α} {v : Invocation}
  {f : TransportError} {r : Log.Record}

/-! ## Counters -/

/-- How many attempts an invocation under way has begun. -/
def tries (w : Scene α) (v : Invocation) : Nat :=
  (w.attempts v.id).length + v.stage.isTrying.toNat

theorem tries_put {c : Client} {m : Move α} (hid : q.invocation.id = v.id) :
    (w.put c i q (marks w.client v m q)).tries q.invocation =
      (w.attempts v.id).length + (w.client.attempted? v m).toList.length + q.invocation.stage.isTrying.toNat := by
  rw [tries, hid, attempts_put, attempts_marks, if_pos rfl, List.length_append]

/-- A move that leaves an invocation under way goes on counting. -/
theorem counts_of_leads {c : Client} {m : Move α} (hc : v.attempt = .ofNat (w.tries v))
    (hl : w.client.Leads v m (w.client.attempted? v m) c q) (hn : ∀ o, q.phase ≠ .ended o) :
    q.invocation.attempt = .ofNat ((w.put c i q (marks w.client v m q)).tries q.invocation) := by
  rw [tries_put hl.same.1]
  rw [tries] at hc
  generalize w.client.attempted? v m = a at hl
  cases hl with
  | looked | rested => exact hc
  | unheld hb | discards hb | reuses hb =>
      rw [hb.isTrying] at hc
      exact (congrArg (· + 1) hc).trans (UInt32.ofNat_add _ 1).symm
  | attaches hs =>
      rw [hs] at hc
      exact hc
  | suppresses hf =>
      rw [hf.isTrying] at hc
      exact hc
  | givenUp | orphans | throws | succeeds => exact absurd rfl (hn _)

theorem Reachable.counts (h : w.Reachable) (hp : w.participants i = some p) (hn : ∀ o, p.phase ≠ .ended o) :
    p.invocation.attempt = .ofNat (w.tries p.invocation) := by
  refine h.participant
    (P := fun w p => (∀ o, p.phase ≠ .ended o) → p.invocation.attempt = .ofNat (w.tries p.invocation)) ?_ ?_ ?_ hp hn
  · intro w i s t c p hr _ hi hb _
    have hattempts : (w.put c i p (.began i s t :: p.reached)).attempts p.invocation.id = [] := by
      rw [hb.invocation, attempts_put, List.filterMap_cons_none rfl, attempts_reached, List.append_nil]
      exact hr.attempts_of_none hi
    rw [tries, hattempts, hb.invocation]
    rfl
  · intro w i p m q c _ _ hn hm ih hq
    exact counts_of_leads (ih hn) hm hq
  · intro w w' e i p hr hs hp hm ih hn
    obtain ⟨ms, ht, hms⟩ := hs.marks_of_others hr hp hm
    have hattempts : w'.attempts p.invocation.id = w.attempts p.invocation.id := by
      rw [(hr.known hp).id, attempts, ht, List.filterMap_append, filterMap_attempt?_of_ne hms, List.append_nil,
        attempts]
    rw [tries, hattempts]
    exact ih hn

/-! ## Reports that another attempt follows -/

/-- The reports of the failures after which an invocation went on, oldest first. -/
def retries (w : Scene α) (i : InvocationId) : List Log.Record :=
  ((w.failures.zip w.client.reports).filter (fun x => x.1.1 = i && x.2.isRetry)).map Prod.snd

theorem retries_of_append (hr : w.Reachable) (hn : w'.failures = w.failures ++ [(j, f)])
    (hl : w'.client.reports = w.client.reports ++ [r]) :
    w'.retries i = w.retries i ++ if j = i ∧ r.isRetry = true then [r] else [] := by
  rw [retries, hn, hl, List.zip_append hr.reports.length_eq, List.filter_append, List.map_append, ← retries]
  by_cases hj : j = i <;> cases hk : r.isRetry <;> simp [hj, hk]

/-- The failures of an invocation are those of its attempts. -/
theorem countP_failures (w : Scene α) (i : InvocationId) (k : Classifier) :
    w.failures.countP (fun x => x.1 = i && !(k.classify x.2).rethrows) =
      (w.attempts i).countP (Attempt.isSuppressed k) := by
  rw [failures, attempts, List.countP_filterMap, List.countP_filterMap]
  refine List.countP_congr fun x _ => ?_
  cases x with
  | attempted j a =>
      have hfailure : Mark.failure? (.attempted j a) = a.failure?.map (j, ·) := rfl
      rw [hfailure, Mark.attempt?, Attempt.failure?]
      by_cases hj : j = i <;> cases ha : a.result <;> simp [hj, Attempt.isSuppressed, ha]
  | deed | began | opening | called | ended => rfl

/-- A failure has the report that another attempt follows just if it was suppressed. -/
theorem Reported.isRetry {x : InvocationId × TransportError} (h : w.Reported x r) (hp : w.participants i = some p) :
    (x.1 = i && r.isRetry) = (x.1 = i && !((w.classifier p.invocation).classify x.2).rethrows) := by
  obtain ⟨p', n, d, hp', rfl, hd⟩ := h
  by_cases hi : x.1 = i
  · rw [hi, hp] at hp'
    cases hp'
    rw [Verdict.isRetry_report, hd]
    rfl
  · simp only [hi, decide_false, Bool.false_and]

theorem Reachable.length_retries (h : w.Reachable) (hp : w.participants i = some p) :
    (w.retries i).length = (w.attempts i).countP (Attempt.isSuppressed (w.classifier p.invocation)) := by
  rw [← countP_failures, retries, List.length_map, ← List.countP_eq_length_filter]
  have hreports := h.reports
  generalize w.failures = fs, w.client.reports = rs at hreports
  induction hreports with
  | nil => rfl
  | cons hx _ ih => rw [List.zip_cons_cons, List.countP_cons, List.countP_cons, ih, hx.isRetry hp]

/-! ## Numbers -/

/-- Who fails had an attempt under way. -/
theorem trying_of_step (hr : w.Reachable) (hs : w.step e = some w') (hn : w'.failures = w.failures ++ [(i, f)]) :
    ∃ p, w.participants i = some p ∧ (∀ o, p.phase ≠ .ended o) ∧ p.invocation.stage.isTrying = true := by
  cases steps_of_step hs with
  | deed =>
      rw [failures, List.filterMap_append, failures] at hn
      cases List.append_cancel_left hn
  | begin hl hi hb =>
      rw [failures, put, List.filterMap_append, List.filterMap_cons_none rfl, failures_reached, failures] at hn
      cases List.append_cancel_left hn
  | @move j m p q c hf hj hm =>
      rw [failures, put, List.filterMap_append, failures_marks, (hr.known hj).id] at hn
      have hfailed := List.append_cancel_left hn
      have hl := Client.leads_of_move? hm
      generalize w.client.attempted? p.invocation m = a at hl hfailed
      cases hl with
      | throws hf | suppresses hf =>
          rw [Option.bind_some, hf.failure?] at hfailed
          cases hfailed
          exact ⟨p, hj, Client.phase_of_move? hm, hf.isTrying⟩
      | _ => cases hfailed

/-- The reports that another attempt follows carry the numbers from one on, as the counter has them. -/
theorem Reachable.numbered_retries (h : w.Reachable) {k : Nat} (hk : (w.retries i)[k]? = some r) :
    r.fields.lookup "attempt" = some (toString (UInt32.ofNat (k + 1)).toNat) := by
  induction h generalizing i k r with
  | start => cases hk
  | @step w w' e hr hs ih =>
      cases reports_of_step hr hs with
      | silent hn hl =>
          rw [retries, hn, hl] at hk
          exact ih hk
      | throws hp hn _ hl =>
          rw [retries_of_append hr hn hl, Verdict.isRetry_report] at hk
          simp only [Option.isNone_none, Bool.not_true, Bool.false_eq_true, and_false, if_false, List.append_nil] at hk
          exact ih hk
      | @retries j p q f d hp hn hv hl =>
          obtain ⟨p', hp', hlive, htrying⟩ := trying_of_step hr hs hn
          rw [hp] at hp'
          cases hp'
          rw [retries_of_append hr hn hl, Verdict.isRetry_report] at hk
          split at hk
          · rename_i hj
            obtain ⟨rfl, -⟩ := hj
            rcases Nat.lt_trichotomy k (w.retries j).length with hlt | rfl | hgt
            · exact ih (by rwa [List.getElem?_append_left hlt] at hk)
            · -- The new report: all attempts so far have one, and the counter is one ahead of them.
              have hsup := (Live.of_accounted (hr.accounted hp) hlive).suppressed
              rw [List.getElem?_concat_length, Option.some.injEq] at hk
              rw [← hk, Verdict.attempt_report, hr.counts hp hlive, tries, htrying, hr.length_retries hp,
                (hr.known hp).id, List.countP_eq_length.2 ((hr.known hp).id ▸ hsup)]
              rfl
            · rw [List.getElem?_eq_none (by simp; omega)] at hk
              cases hk
          · rw [List.append_nil] at hk
            exact ih hk

/-! ## Going on after a failure -/

/-- Who waits for something else than the lock, and is not given up, has its turn. -/
theorem step_look (hp : w.participants i = some ⟨v, .waiting⟩) (hq : v.stage ≠ .queued)
    (hi : w.client.interruption? (α := α) v = none) :
    w.step (.move i .look) = some (w.put w.client i ⟨v, .turning⟩ []) := by
  have hm : w.client.move? (α := α) ⟨v, .waiting⟩ .look = some (w.client, ⟨v, .turning⟩) := by
    simp only [Client.move?, if_neg hq, hi]
  exact step_move (Bool.and_false _) hp hm

/-- When a delay has passed the next attempt begins. -/
theorem elapses {d : Duration} (hp : w.participants i = some ⟨v, .turning⟩) (hd : v.stage = .delaying d)
    (hi : w.client.interruption? (α := α) v = none) :
    ∃ w' q, w.step (.move i (.answer .elapsed)) = some w' ∧ w'.participants i = some q ∧ q.phase = .waiting ∧
      q.invocation.stage.isTrying = true ∧ w'.attempts i = w.attempts i := by
  have hanswer : (Client.Answer.elapsed (α := α)).isFor v.stage = true := by rw [hd]; rfl
  obtain ⟨c, q, hm⟩ : ∃ c q, w.client.move? (α := α) ⟨v, .turning⟩ (.answer .elapsed) = some (c, q) := by
    simp only [Client.move?, hanswer, if_true]
    exact ⟨_, _, rfl⟩
  have hnone : w.client.attempted? (α := α) v (.answer .elapsed) = none := rfl
  have hattempts : (w.put c i q (marks w.client v (.answer .elapsed) q)).attempts i = w.attempts i := by
    rw [attempts_put, attempts_marks, hnone, Option.toList_none, ite_self, List.append_nil]
  refine ⟨_, q, step_move (Bool.and_false _) hp hm, if_pos rfl, ?_⟩
  have hl : w.client.Leads v (.answer .elapsed) none c q := Client.leads_of_move? hm
  cases hl with
  | unheld | discards | reuses => exact ⟨rfl, rfl, hattempts⟩
  | givenUp _ hgiven => rw [hi] at hgiven; cases hgiven
  | attaches _ ho | orphans _ ho => cases ho
  | looked h | rested h => cases h

/-- An invocation that waits out a delay can go on with its next attempt. -/
theorem goes_on_after_delay {d : Duration} (hp : w.participants i = some p) (hn : ∀ o, p.phase ≠ .ended o)
    (hd : p.invocation.stage = .delaying d) (hi : w.client.interruption? (α := α) p.invocation = none) :
    ∃ es w' q, w.run es = some w' ∧ (∀ e ∈ es, e = .move i .look ∨ e = .move i (.answer .elapsed)) ∧
      w'.participants i = some q ∧ q.phase = .waiting ∧ q.invocation.stage.isTrying = true ∧
      w'.attempts i = w.attempts i := by
  obtain ⟨v, ph⟩ := p
  cases ph with
  | ended o => exact absurd rfl (hn o)
  | turning =>
      obtain ⟨w', q, hs, hq⟩ := elapses hp hd hi
      exact ⟨[_], w', q, run_cons_eq_some.2 ⟨w', hs, rfl⟩, by simp, hq⟩
  | waiting =>
      have hd : v.stage = .delaying d := hd
      have hlook := step_look hp (by simp [hd]) hi
      obtain ⟨w', q, hs, hq, hwaits, htrying, ha⟩ :=
        elapses (w := w.put w.client i ⟨v, .turning⟩ []) (if_pos rfl) hd hi
      refine ⟨[_, _], w', q, run_cons_eq_some.2 ⟨_, hlook, run_cons_eq_some.2 ⟨w', hs, rfl⟩⟩, by simp, hq, hwaits,
        htrying, ?_⟩
      rw [ha, attempts_put, List.filterMap_nil, List.append_nil]

/-- An invocation that waits out a delay is ended only by what gives it up. -/
theorem interrupted_of_ended {d : Duration} (hp : w.participants i = some p) (hn : ∀ o, p.phase ≠ .ended o)
    (hd : p.invocation.stage = .delaying d) (hs : w.step e = some w') (hq : w'.participants i = some q) {o : Outcome α}
    (ho : q.phase = .ended o) : w.client.interruption? p.invocation = some o := by
  have hsteps := steps_of_step hs
  by_cases hm : ∃ m, e = .move i m
  · obtain ⟨m, rfl⟩ := hm
    obtain ⟨c, q', hm, rfl⟩ := move_of_step hs hp
    have hq : some q' = some q := (if_pos rfl).symm.trans hq
    cases hq
    have hl := Client.leads_of_move? hm
    generalize w.client.attempted? p.invocation m = a at hl
    cases hl with
    | givenUp _ hi => cases ho; exact hi
    | orphans hopening => cases hd.symm.trans hopening
    | succeeds hacting => cases hd.symm.trans hacting
    | throws hf => cases (congrArg Stage.isTrying hd).symm.trans hf.isTrying
    | _ => cases ho
  · have hsame : w'.participants i = w.participants i := by
      refine hsteps.participants (fun s t he => ?_) fun m he => hm ⟨m, he⟩
      subst he
      cases hsteps with
      | begin _ hi => rw [hp] at hi; cases hi
    rw [hsame, hp] at hq
    cases hq
    exact absurd ho (hn o)

/-- The attempts of an invocation are numbered, in the reports that another one follows and in the counter itself, but
modulo the size of the counter. After a failure that is suppressed it waits; then it goes on, unless it is given up. -/
structure Numbered (w : Scene α) (i : InvocationId) (p : Participant α) : Prop where
  retried : (w.retries i).length = (w.attempts i).countP (Attempt.isSuppressed (w.classifier p.invocation))
  numbers : ∀ k r, (w.retries i)[k]? = some r → r.message = "channel action failed, retrying" ∧
    r.fields.lookup "attempt" = some (toString ((k + 1) % UInt32.size)) ∧
    (r.fields.lookup "attempt" = some (toString (k + 1)) ↔ k + 1 < UInt32.size)
  counter : (∀ o, p.phase ≠ .ended o) → p.invocation.attempt.toNat = w.tries p.invocation % UInt32.size
  waits : ∀ e w' f, w.step e = some w' → w'.failures = w.failures ++ [(i, f)] →
    (w.client.verdict p.invocation f).rethrows = false →
    ∃ q d, w'.participants i = some q ∧ q.phase = .waiting ∧ q.invocation.stage = .delaying d
  given_up : ∀ d e w' q o, (∀ o, p.phase ≠ .ended o) → p.invocation.stage = .delaying d → w.step e = some w' →
    w'.participants i = some q → q.phase = .ended o → w.client.interruption? p.invocation = some o
  goes_on : ∀ d, (∀ o, p.phase ≠ .ended o) → p.invocation.stage = .delaying d →
    w.client.interruption? (α := α) p.invocation = none →
    ∃ es w' q, w.run es = some w' ∧ (∀ e ∈ es, e = .move i .look ∨ e = .move i (.answer .elapsed)) ∧
      w'.participants i = some q ∧ q.phase = .waiting ∧ q.invocation.stage.isTrying = true ∧
      w'.attempts i = w.attempts i ∧ q.invocation.attempt.toNat = ((w.attempts i).length + 1) % UInt32.size

theorem isRetry_of_retries {k : Nat} (hk : (w.retries i)[k]? = some r) : r.isRetry = true := by
  have hr := List.mem_of_getElem? hk
  obtain ⟨x, hx, rfl⟩ := List.mem_map.1 hr
  exact (Bool.and_eq_true_iff.1 (List.mem_filter.1 hx).2).2

/-- Whatever the options of its supervisor are, an invocation goes on after each failure that is suppressed, and its
attempts are numbered. -/
theorem Reachable.retries_numbered (hr : w.Reachable) (hp : w.participants i = some p) : w.Numbered i p where
  retried := hr.length_retries hp
  numbers k r hk := by
    have hnumber : r.fields.lookup "attempt" = some (toString ((k + 1) % UInt32.size)) :=
      (hr.numbered_retries hk).trans (congrArg (fun n => some (toString n)) UInt32.toNat_ofNat')
    refine ⟨of_decide_eq_true (isRetry_of_retries hk), hnumber, ?_⟩
    rw [hnumber, Option.some.injEq, Text.toString_inj, Nat.mod_eq_iff_lt (by decide)]
  counter hn := by
    rw [hr.counts hp hn]
    exact UInt32.toNat_ofNat'
  waits e w' f hs hn hk := by
    cases reports_of_step hr hs with
    | silent hsame => cases List.self_eq_append_right.1 (hsame.symm.trans hn)
    | throws hp' hn' hk' =>
        cases List.append_cancel_left (hn.symm.trans hn')
        cases hp.symm.trans hp'
        rw [hk] at hk'
        cases hk'
    | retries _ hn' _ _ hq hwaits hdelay =>
        cases List.append_cancel_left (hn.symm.trans hn')
        exact ⟨_, _, hq, hwaits, hdelay⟩
  given_up d e w' q o hn hd hs hq ho := interrupted_of_ended hp hn hd hs hq ho
  goes_on d hn hd hi := by
    obtain ⟨es, w', q, hrun, hes, hq, hwaits, htrying, ha⟩ := goes_on_after_delay hp hn hd hi
    have hr' := hr.run hrun
    refine ⟨es, w', q, hrun, hes, hq, hwaits, htrying, ha, ?_⟩
    have htries : w'.tries q.invocation = (w.attempts i).length + 1 := by
      rw [tries, htrying, (hr'.known hq).id, ha]
      rfl
    rw [hr'.counts hq (by simp [hwaits]), htries]
    exact UInt32.toNat_ofNat'

/-- Two openings fail, and the invocation waits out its second delay. -/
def refusedTwice : List (Event Nat) :=
  [.deed (.supervise {}), .begin ⟨0⟩ ⟨0⟩ none, .move ⟨0⟩ .enter, .deed (.failNext (.unreachable "away")),
    .deed (.failNext (.client "odd")), .move ⟨0⟩ .look, .move ⟨0⟩ .opens, .move ⟨0⟩ .look,
    .move ⟨0⟩ (.answer .elapsed), .move ⟨0⟩ .look, .move ⟨0⟩ .opens]

theorem retries_numbered_refusedTwice : ∃ w p, (start true true).run refusedTwice = some w ∧
    w.participants ⟨0⟩ = some p ∧ p.invocation.attempt.toNat = 2 ∧
    (∃ r, (w.retries ⟨0⟩)[1]? = some r ∧ r.fields.lookup "attempt" = some "2") ∧
    ∃ es w' q, w.run es = some w' ∧ w'.participants ⟨0⟩ = some q ∧ q.invocation.stage.isTrying = true ∧
      q.invocation.attempt.toNat = 3 := by
  obtain ⟨w, hw⟩ := Option.isSome_iff_exists.1 (rfl : ((start true true).run refusedTwice).isSome = true)
  have hp : w.participants ⟨0⟩ = some ⟨⟨⟨0⟩, ⟨0⟩, none, ({} : Options).backoff.step.2.step.2, 2,
      .delaying ({} : Options).backoff.step.2.step.1⟩, .waiting⟩ := map_of_run (·.participants ⟨0⟩) hw rfl
  have ha : w.attempts ⟨0⟩ = [.unopened (.unreachable "away"), .unopened (.client "odd")] :=
    map_of_run (·.attempts ⟨0⟩) hw rfl
  have hi := map_of_run (·.client.interruption? (α := Nat)
    ⟨⟨0⟩, ⟨0⟩, none, ({} : Options).backoff.step.2.step.2, 2, .delaying ({} : Options).backoff.step.2.step.1⟩) hw rfl
  have hnumbered := ((Reachable.start true true).run hw).retries_numbered hp
  have hlength : (w.retries ⟨0⟩).length = 2 := by rw [hnumbered.retried, ha]; rfl
  have hlt : 1 < (w.retries ⟨0⟩).length := by omega
  obtain ⟨es, w', q, hrun, -, hq, -, htrying, -, hcounter⟩ := hnumbered.goes_on _ nofun rfl hi
  refine ⟨w, _, hw, hp, rfl, ⟨_, List.getElem?_eq_getElem hlt, ?_⟩, es, w', q, hrun, hq, htrying, ?_⟩
  · exact (hnumbered.numbers 1 _ (List.getElem?_eq_getElem hlt)).2.2.2 (by decide)
  · rw [hcounter, ha]
    rfl

/-! ## Openings that fail without an end -/

/-- An invocation is about to open a channel under some options, and nothing is held, laid up or called. -/
structure Opening (w : Scene α) (i : InvocationId) (o : Options) (v : Invocation) : Prop where
  participant : w.participants i = some ⟨v, .waiting⟩
  id : v.id = i
  stage : v.stage = .opening
  uninterrupted : w.client.interruption? (α := α) v = none
  unheld : (w.client.supervisor v.supervisor).held = none
  options : (w.client.supervisor v.supervisor).options = o
  clear : w.client.connection.failures = []

/-- The events by which an opening fails and the next attempt begins. -/
def failing (i : InvocationId) (f : TransportError) : List (Event α) :=
  [.deed (.failNext f), .move i .look, .move i .opens, .move i .look, .move i (.answer .elapsed)]

theorem openChannel_failNext {c : Client} (hc : c.connection.failures = []) (f : TransportError) :
    (c.failNext f).openChannel = (c, .error f) := by
  obtain ⟨⟨recoverable, failures, channels⟩, supervisors, cancelled, events, log⟩ := c
  obtain rfl : failures = [] := hc
  rfl

theorem failed_of_unheld {c : Client} (hh : (c.supervisor v.supervisor).held = none) (f : TransportError) :
    c.failed v f = c.record (c.report v f) := by
  rw [Client.failed_eq, Client.closeHeld_of_none hh, ite_self]

/-- The opening fails, and the invocation waits for the delay of its options. -/
theorem step_opens_of_suppressed {c : Client} (hp : w.participants i = some ⟨v, .turning⟩) (hs : v.stage = .opening)
    (ho : w.client.openChannel = (c, .error f)) (hh : (c.supervisor v.supervisor).held = none)
    (hk : (c.verdict v f).rethrows = false) :
    w.step (.move i .opens) = some (w.put (c.record (c.report v f)) i
      ⟨{ v with backoff := v.backoff.step.2, stage := .delaying v.backoff.step.1 }, .waiting⟩
      [.attempted v.id (.unopened f)]) := by
  have hm : w.client.move? (α := α) ⟨v, .turning⟩ .opens = some (c.record (c.report v f),
      ⟨{ v with backoff := v.backoff.step.2, stage := .delaying v.backoff.step.1 }, .waiting⟩) := by
    simp only [Client.move?, if_pos hs, ho, Client.opened, Client.fail_of_suppresses hk, failed_of_unheld hh]
    rfl
  rw [step_move (Bool.and_false _) hp hm]
  simp only [marks, Client.attempted?, ho]
  rfl

theorem step_elapsed_of_unheld {d : Duration} (hp : w.participants i = some ⟨v, .turning⟩) (hd : v.stage = .delaying d)
    (hi : w.client.interruption? (α := α) v = none) (hh : (w.client.supervisor v.supervisor).held = none) :
    w.step (.move i (.answer .elapsed)) = some (w.put w.client i
      ⟨{ v with attempt := v.attempt + 1, stage := .opening }, .waiting⟩ [.opening v.id]) := by
  have hm : w.client.move? (α := α) ⟨v, .turning⟩ (.answer .elapsed) = some (w.client,
      ⟨{ v with attempt := v.attempt + 1, stage := .opening }, .waiting⟩) := by
    simp only [Client.move?, Client.answer, hd, Client.attempt, hi, Client.supervisorOf, Supervisor.channel?, hh]
    rfl
  exact step_move (Bool.and_false _) hp hm

theorem Opening.run_failing {o : Options} (h : w.Opening i o v) (hk : (o.classifier.classify f).rethrows = false) :
    ∃ w' v', w.run (failing i f) = some w' ∧ w'.Opening i o v' ∧ w'.attempts i = w.attempts i ++ [.unopened f] := by
  obtain ⟨hp, hid, hs, hi, hh, ho, hc⟩ := h
  subst ho
  have hlaid : w.step (.deed (.failNext f)) =
      some { w with client := w.client.failNext f, trace := w.trace ++ [.deed (.failNext f)] } := by
    simp [step, isForeign, Client.perform?]
  -- The failure is laid up and taken again, so that the client has but one more record in the end.
  refine ⟨_, { v with backoff := v.backoff.step.2, attempt := v.attempt + 1, stage := .opening },
    run_cons_eq_some.2 ⟨_, hlaid, run_cons_eq_some.2 ⟨_, step_look hp (by simp [hs]) hi,
    run_cons_eq_some.2 ⟨_, step_opens_of_suppressed (if_pos rfl) hs (openChannel_failNext hc f) hh hk,
    run_cons_eq_some.2 ⟨_, step_look (if_pos rfl) (by simp) hi,
    run_cons_eq_some.2 ⟨_, step_elapsed_of_unheld (if_pos rfl) rfl hi hh, rfl⟩⟩⟩⟩⟩, ?_, ?_⟩
  · exact ⟨if_pos rfl, hid, rfl, hi, hh, rfl, hc⟩
  · simp [Scene.attempts, put, List.filterMap_cons, Mark.attempt?, hid]

/-- Any number of openings can fail one after another. -/
theorem Opening.run_failings {o : Options} {fs : List TransportError} (h : w.Opening i o v)
    (hk : ∀ f ∈ fs, (o.classifier.classify f).rethrows = false) :
    ∃ w' v', w.run (fs.flatMap (failing i)) = some w' ∧ w'.Opening i o v' ∧
      w'.attempts i = w.attempts i ++ fs.map .unopened := by
  induction fs generalizing w v with
  | nil => exact ⟨w, v, rfl, h, (List.append_nil _).symm⟩
  | cons f fs ih =>
      obtain ⟨w₁, v₁, hrun₁, h₁, ha₁⟩ := h.run_failing (hk f List.mem_cons_self)
      obtain ⟨w', v', hrun', h', ha'⟩ := ih h₁ fun f hf => hk f (List.mem_cons_of_mem _ hf)
      refine ⟨w', v', ?_, h', ?_⟩
      · rw [List.flatMap_cons, run_append, hrun₁, Option.bind_some, hrun']
      · rw [ha', ha₁, List.append_assoc, List.map_cons, List.singleton_append]

/-- The only invocation of a client, whose openings fail one after another. -/
def denied (o : Options) (fs : List TransportError) : List (Event α) :=
  [.deed (.supervise o), .begin ⟨0⟩ ⟨0⟩ none, .move ⟨0⟩ .enter] ++ fs.flatMap (failing ⟨0⟩)

/-- Under any options an invocation can fail as often as one likes, and each failure is reported. -/
theorem run_denied (o : Options) (fs : List TransportError)
    (hk : ∀ f ∈ fs, (o.classifier.classify f).rethrows = false) :
    ∃ w v, (start (α := α) true true).run (denied o fs) = some w ∧ w.Opening ⟨0⟩ o v ∧
      (w.retries ⟨0⟩).length = fs.length := by
  obtain ⟨w₀, h₀⟩ := Option.isSome_iff_exists.1 (rfl : ((start (α := α) true true).run
    [.deed (.supervise o), .begin ⟨0⟩ ⟨0⟩ none, .move ⟨0⟩ .enter]).isSome = true)
  have hopening : w₀.Opening ⟨0⟩ o ⟨⟨0⟩, ⟨0⟩, none, o.backoff, 1, .opening⟩ :=
    { participant := map_of_run (·.participants ⟨0⟩) h₀ rfl
      id := rfl
      stage := rfl
      uninterrupted := map_of_run (·.client.interruption? _) h₀ rfl
      unheld := map_of_run (·.client.supervisor ⟨0⟩ |>.held) h₀ rfl
      options := map_of_run (·.client.supervisor ⟨0⟩ |>.options) h₀ rfl
      clear := map_of_run (·.client.connection.failures) h₀ rfl }
  obtain ⟨w, v, hrun, hw, ha⟩ := hopening.run_failings hk
  have hrun : (start true true).run (denied o fs) = some w := by rw [denied, run_append, h₀, Option.bind_some, hrun]
  refine ⟨w, v, hrun, hw, ?_⟩
  have hclassifier : w.classifier v = o.classifier := congrArg Options.classifier hw.options
  rw [map_of_run (·.attempts ⟨0⟩) h₀ (rfl : _ = some []), List.nil_append] at ha
  rw [((Reachable.start true true).run hrun).length_retries hw.participant, ha, List.countP_map, hclassifier]
  refine List.countP_eq_length.2 fun f hf => ?_
  rw [Function.comp_apply, isSuppressed_of_result rfl, hk f hf, Bool.not_false]

/-- Openings that fail at once and are tried again without a delay. -/
def tireless : Options where
  shortestDelay := .zero
  longestDelay := .zero

/-- After 2 ^ 32 failures that were suppressed the counter is full, and the last of them is reported with the number
zero. -/
theorem not_always_numbered : ∃ (w : Scene Nat) (r : Log.Record),
    (start true true).run (denied tireless (List.replicate UInt32.size (.unreachable "away"))) = some w ∧
    (w.retries ⟨0⟩).length = UInt32.size ∧ (w.retries ⟨0⟩)[UInt32.size - 1]? = some r ∧
    r.message = "channel action failed, retrying" ∧ r.fields.lookup "attempt" = some "0" := by
  obtain ⟨w, v, hrun, -, hlength⟩ := run_denied (α := Nat) tireless
    (List.replicate UInt32.size (.unreachable "away")) fun f hf => by rw [List.eq_of_mem_replicate hf]; rfl
  rw [List.length_replicate] at hlength
  have hlt : UInt32.size - 1 < (w.retries ⟨0⟩).length := by
    rw [hlength]
    exact Nat.sub_lt (by decide) Nat.one_pos
  have hlast := List.getElem?_eq_getElem hlt
  exact ⟨w, _, hrun, hlength, hlast, of_decide_eq_true (isRetry_of_retries hlast),
    ((Reachable.start true true).run hrun).numbered_retries hlast⟩

end Scene

end BrokerClient
