import BrokerClient.Proofs.Scene.Attempts

/-!
# Outcomes

Why an invocation ends as it does. Its outcome is read off the trace: the attempts that came out, the deeds
done before it began and those done since (`Justified`). Without a disposal and a cancellation it stops at the
first attempt that succeeds or whose failure goes to the caller (`StopsAt`).
-/
namespace BrokerClient

/-- The outcome that an attempt gives to its invocation if no other one follows. -/
def Attempt.outcome {α : Type} (a : Attempt α) : Outcome α :=
  match a.result with
  | .ok a => .ok a
  | .error e => .failed e

namespace Scene

variable {α : Type} {w w' : Scene α} {e : Event α} {i : InvocationId} {p : Participant α} {v : Invocation}

def classifier (w : Scene α) (v : Invocation) : Classifier :=
  (w.client.supervisor v.supervisor).options.classifier

/-- What must have come about for an outcome. -/
def Justified (w : Scene α) (v : Invocation) : Outcome α → Prop
  | .ok a => ∃ as, w.attempts v.id = as ++ [.acted (.ok a)] ∧
      ∀ b ∈ as, b.isSuppressed (w.classifier v) = true
  | .failed e => ∃ as a, w.attempts v.id = as ++ [a] ∧ a.result = .error e ∧
      ((w.classifier v).classify e).rethrows = true ∧ ∀ b ∈ as, b.isSuppressed (w.classifier v) = true
  | .cancelled => ∃ t before after, v.token = some t ∧
      w.trace = before ++ .ended v.id .cancelled :: after ∧ .deed (.cancel t) ∈ before
  | .aborted => ∃ before between after,
      w.trace = before ++ .began v.id v.supervisor v.token :: (between ++ .ended v.id .aborted :: after) ∧
      .deed (.dispose v.supervisor) ∉ before ∧ .deed (.dispose v.supervisor) ∈ between
  | .disposed => ∃ before after,
      w.trace = before ++ .began v.id v.supervisor v.token :: .ended v.id .disposed :: after ∧
      .deed (.dispose v.supervisor) ∈ before

/-- An invocation under way began before its supervisor was disposed of, and its failures so far were
suppressed. -/
structure Live (w : Scene α) (v : Invocation) : Prop where
  began : ∃ before after, w.trace = before ++ .began v.id v.supervisor v.token :: after ∧
    .deed (.dispose v.supervisor) ∉ before
  suppressed : ∀ a ∈ w.attempts v.id, a.isSuppressed (w.classifier v) = true

def Accounted (w : Scene α) (p : Participant α) : Prop :=
  match p.phase with
  | .ended o => w.Justified p.invocation o
  | _ => w.Live p.invocation

/-! ## Longer traces -/

/-- A scene with a longer trace, without a new attempt of the invocation. -/
structure Longer (w w' : Scene α) (v : Invocation) : Prop where
  trace : ∃ ms, w'.trace = w.trace ++ ms
  attempts : w'.attempts v.id = w.attempts v.id
  classifier : w'.classifier v = w.classifier v

theorem Justified.longer {o : Outcome α} (h : w.Justified v o) (hl : w.Longer w' v) : w'.Justified v o := by
  obtain ⟨⟨ms, ht⟩, ha, hk⟩ := hl
  cases o with
  | ok a | failed e => simpa only [Justified, ha, hk] using h
  | cancelled =>
      obtain ⟨t, before, after, hv, hw, hc⟩ := h
      exact ⟨t, before, after ++ ms, hv, by simp [ht, hw], hc⟩
  | aborted =>
      obtain ⟨before, between, after, hw, hb, hd⟩ := h
      exact ⟨before, between, after ++ ms, by simp [ht, hw], hb, hd⟩
  | disposed =>
      obtain ⟨before, after, hw, hd⟩ := h
      exact ⟨before, after ++ ms, by simp [ht, hw], hd⟩

theorem Live.longer (h : w.Live v) (hl : w.Longer w' v) : w'.Live v := by
  obtain ⟨⟨ms, ht⟩, ha, hk⟩ := hl
  obtain ⟨before, after, hw, hd⟩ := h.began
  exact ⟨⟨before, after ++ ms, by simp [ht, hw], hd⟩, by simpa only [ha, hk] using h.suppressed⟩

theorem Accounted.longer (h : w.Accounted p) (hl : w.Longer w' p.invocation) : w'.Accounted p := by
  unfold Accounted at h ⊢
  split
  · rename_i o ho; rw [ho] at h; exact h.longer hl
  · rename_i ho
    split at h
    · rename_i o ho'; exact absurd ho' (ho o)
    · exact h.longer hl

theorem Steps.longer (h : w.Steps e w') (hr : w.Reachable) (hp : w.participants i = some p)
    (hm : ∀ m, e ≠ .move i m) : w.Longer w' p.invocation := by
  have hk := hr.known hp
  refine ⟨h.trace, ?_, by simp only [classifier, h.grows.options _ hk.supervisor]⟩
  obtain ⟨ms, ht, hms⟩ := h.marks_of_others hr hp hm
  rw [hk.id, attempts, ht, List.filterMap_append, filterMap_attempt?_of_ne hms, List.append_nil]
  rfl

/-! ## One step -/

theorem accounted_of_begun {s : SupervisorId} {t : Option Token} {c : Client} (hr : w.Reachable)
    (hi : w.participants i = none) (hb : w.client.Begun (w.client.fresh i s t) c p) :
    (w.put c i p (.began i s t :: p.reached)).Accounted p := by
  cases hb with
  | late hd => exact ⟨w.trace, [], rfl, (hr.disposed_iff s).1 hd⟩
  | @cancelled t' hd ht hc =>
      refine ⟨t', w.trace ++ [.began i s t], [], ht, by simp [put, Participant.reached, Client.fresh], ?_⟩
      exact List.mem_append_left _ ((hr.cancelled_iff t').1 hc)
  | joins hd hl =>
      refine ⟨⟨w.trace, [], rfl, fun hm => ?_⟩, ?_⟩
      · rw [← hr.disposed_iff] at hm
        exact Bool.false_ne_true (hd.symm.trans hm)
      · intro a ha
        change a ∈ Scene.attempts _ i at ha
        simp only [attempts_put, hr.attempts_of_none hi, List.filterMap_cons, Mark.attempt?,
          attempts_reached, List.append_nil] at ha
        cases ha

theorem mem_of_notMem_append {β : Type} {a b : β} {before after l : List β} (hl : l = before ++ a :: after)
    (hb : b ∈ l) (hn : b ∉ before) (hab : b ≠ a) : b ∈ after := by
  rw [hl] at hb
  rcases List.mem_append.1 hb with hb | hb
  · exact absurd hb hn
  · exact (List.mem_cons.1 hb).resolve_left hab

/-- The trace of an invocation that is given up for a disposal. -/
theorem Live.aborted {c : Client} {q : Participant α} (hl : w.Live v) (hr : w.Reachable)
    (hd : w.client.isDisposed v.supervisor = true) :
    (w.put c i q [.ended v.id .aborted]).Justified v .aborted := by
  obtain ⟨before, after, hw, hn⟩ := hl.began
  refine ⟨before, after, [], by simp [put, hw], hn, ?_⟩
  exact mem_of_notMem_append hw ((hr.disposed_iff _).1 hd) hn (by simp)

theorem isSuppressed_of_result {k : Classifier} {a : Attempt α} {e : TransportError}
    (h : a.result = .error e) : a.isSuppressed k = !(k.classify e).rethrows := by
  simp only [Attempt.isSuppressed, h]

theorem Live.step {as : List (Attempt α)} (h : w.Live v) (ht : ∃ ms, w'.trace = w.trace ++ ms)
    (ha : w'.attempts v.id = w.attempts v.id ++ as) (hk : w'.classifier v = w.classifier v)
    (hs : ∀ a ∈ as, a.isSuppressed (w.classifier v) = true) : w'.Live v := by
  obtain ⟨ms, ht⟩ := ht
  obtain ⟨before, after, hw, hd⟩ := h.began
  refine ⟨⟨before, after ++ ms, by simp [ht, hw], hd⟩, fun a hm => ?_⟩
  rw [hk]
  rw [ha] at hm
  rcases List.mem_append.1 hm with hm | hm
  · exact h.suppressed a hm
  · exact hs a hm

theorem Live.same {v' : Invocation} (h : w.Live v)
    (hs : v'.id = v.id ∧ v'.supervisor = v.supervisor ∧ v'.token = v.token) : w.Live v' := by
  obtain ⟨hid, hsup, htok⟩ := hs
  exact ⟨by simpa only [hid, hsup, htok] using h.began,
    by simpa only [hid, classifier, hsup] using h.suppressed⟩

theorem accounted_of_leads {m : Move α} {c : Client} {q : Participant α} (hr : w.Reachable)
    (hl : w.Live v) (h : w.client.Leads v m (w.client.attempted? v m) c q) :
    (w.put c v.id q (marks w.client v m q)).Accounted q := by
  generalize ha : w.client.attempted? v m = a at h
  have hatt : (w.put c v.id q (marks w.client v m q)).attempts v.id = w.attempts v.id ++ a.toList := by
    rw [attempts_put, attempts_marks, if_pos rfl, ha]
  have hcls : (w.put c v.id q (marks w.client v m q)).classifier v = w.classifier v :=
    congrArg Options.classifier (h.keeps.options _)
  have hlive (hs : ∀ b ∈ a.toList, b.isSuppressed (w.classifier v) = true) :
      (w.put c v.id q (marks w.client v m q)).Live q.invocation :=
    (hl.step ⟨_, rfl⟩ hatt hcls hs).same h.same
  cases h with
  | looked | rested | unheld | discards | reuses | attaches => exact hlive (by simp)
  | suppresses hf hv =>
      refine hlive fun b hb => ?_
      obtain rfl := List.mem_singleton.1 hb
      rw [isSuppressed_of_result hf.result, classifier, ← hf.keeps.options, Bool.not_eq_true']
      exact hv
  | givenUp hm hi =>
      simp only [marks_of_ne_rest hm, ha]
      rcases Client.interruption?_eq_some hi with ⟨rfl, hd⟩ | ⟨rfl, -, t, ht, hc⟩
      · exact hl.aborted hr hd
      · exact ⟨t, w.trace, [], ht, rfl, (hr.cancelled_iff t).1 hc⟩
  | orphans hs ho hat hd =>
      simp only [marks_of_ne_rest ho.ne_rest, ha]
      rw [(ho.keeps.trans (.attach hat)).disposed] at hd
      exact hl.aborted hr hd
  | throws hf hv =>
      refine ⟨_, _, hatt, hf.result, ?_, ?_⟩
      · rw [hcls, classifier, ← hf.keeps.options]; exact hv
      · rw [hcls]; exact hl.suppressed
  | succeeds hs hm => exact ⟨_, hatt, by rw [hcls]; exact hl.suppressed⟩

/-! ## Runs -/

theorem Live.of_accounted (h : w.Accounted p) (hp : ∀ o, p.phase ≠ .ended o) : w.Live p.invocation := by
  unfold Accounted at h
  split at h
  · rename_i o ho; exact absurd ho (hp o)
  · exact h

theorem Reachable.accounted (h : w.Reachable) (hp : w.participants i = some p) : w.Accounted p := by
  refine h.participant ?_ ?_ ?_ hp
  · intro w i s t c p hr _ hi hb
    exact accounted_of_begun hr hi hb
  · intro w i p m q c hr hk hn hm ih
    have := accounted_of_leads hr (Live.of_accounted ih hn) hm
    rwa [hk.id] at this
  · intro w w' e i p hr hs hp hm ih
    exact ih.longer (hs.longer hr hp hm)

/-! ## Scripts -/

theorem eq_of_prefixes {β : Type} {f : β → Bool} {as bs l : List β} {a b : β} (ha : as ++ [a] <+: l)
    (hb : bs ++ [b] <+: l) (has : ∀ x ∈ as, f x = true) (hbs : ∀ x ∈ bs, f x = true)
    (hfa : f a = false) (hfb : f b = false) : as ++ [a] = bs ++ [b] := by
  rcases List.prefix_or_prefix_of_prefix ha hb with h | h
  · rcases List.prefix_concat_iff.1 h with h | h
    · exact h
    · have := hbs a (h.subset (by simp))
      rw [hfa] at this
      cases this
  · rcases List.prefix_concat_iff.1 h with h | h
    · exact h.symm
    · have := has b (h.subset (by simp))
      rw [hfb] at this
      cases this

theorem prefix_of_prefixes {β : Type} {f : β → Bool} {as bs l : List β} {a : β} (ha : as ++ [a] <+: l)
    (hb : bs <+: l) (hbs : ∀ x ∈ bs, f x = true) (hfa : f a = false) : bs <+: as := by
  have hna : a ∉ bs := by
    intro hm
    rw [hbs a hm] at hfa
    cases hfa
  rcases List.prefix_or_prefix_of_prefix ha hb with h | h
  · exact absurd (h.subset (by simp)) hna
  · rcases List.prefix_concat_iff.1 h with rfl | h
    · exact absurd (by simp) hna
    · exact h

/-- Without a disposal and a cancellation an invocation ends with its last attempt, the first one that was
not suppressed. -/
theorem Justified.last {o : Outcome α} (h : w.Justified v o) (hr : w.Reachable)
    (hd : w.client.isDisposed v.supervisor = false) (hc : ∀ t, v.token = some t → t ∉ w.client.cancelled) :
    ∃ as a, w.attempts v.id = as ++ [a] ∧ o = a.outcome ∧
      (∀ b ∈ as, b.isSuppressed (w.classifier v) = true) ∧ a.isSuppressed (w.classifier v) = false := by
  have hd : .deed (.dispose v.supervisor) ∉ w.trace := by
    rw [← hr.disposed_iff, hd]
    exact Bool.false_ne_true
  cases o with
  | ok a =>
      obtain ⟨as, ha, hs⟩ := h
      exact ⟨as, _, ha, rfl, hs, rfl⟩
  | failed e =>
      obtain ⟨as, a, ha, he, hk, hs⟩ := h
      refine ⟨as, a, ha, by simp only [Attempt.outcome, he], hs, ?_⟩
      rw [isSuppressed_of_result he, hk, Bool.not_true]
  | cancelled =>
      obtain ⟨t, before, after, ht, hw, hm⟩ := h
      refine absurd ((hr.cancelled_iff t).2 ?_) (hc t ht)
      rw [hw]
      exact List.mem_append_left _ hm
  | aborted =>
      obtain ⟨before, between, after, hw, -, hm⟩ := h
      refine absurd ?_ hd
      rw [hw]
      simp [hm]
  | disposed =>
      obtain ⟨before, after, hw, hm⟩ := h
      refine absurd ?_ hd
      rw [hw]
      exact List.mem_append_left _ hm

/-- An invocation makes the attempts `as` and then `r`, and ends with `r`: it goes on as far as that when it has
the lock, and calls its action for each of the attempts that come to it. -/
structure StopsAt (w : Scene α) (i : InvocationId) (p : Participant α) (as : List (Attempt α)) (r : Attempt α) :
    Prop where
  so_far : w.attempts i <+: as ++ [r]
  ended_iff : (∃ o, p.phase = .ended o) ↔ w.attempts i = as ++ [r]
  outcome : ∀ o, p.phase = .ended o → o = r.outcome
  calls : ∀ o, p.phase = .ended o → (w.calls i).length = (as ++ [r]).countP Attempt.isAction
  goes_on : (∀ o, p.phase ≠ .ended o) → w.Holds p.invocation →
    ∃ m w', w.step (.move i m) = some w' ∧ (m = .look ∨ w.markCount i < w'.markCount i)
  bounded : w.markCount i ≤ 3 * (as.length + 1) + 4

theorem Reachable.stopsAt {as : List (Attempt α)} {r : Attempt α} {l : List (Attempt α)} (hr : w.Reachable)
    (hp : w.participants i = some p) (hd : w.client.isDisposed p.invocation.supervisor = false)
    (hc : ∀ t, p.invocation.token = some t → t ∉ w.client.cancelled)
    (hsup : ∀ b ∈ as, b.isSuppressed (w.classifier p.invocation) = true)
    (hstop : r.isSuppressed (w.classifier p.invocation) = false)
    (hl : as ++ [r] <+: l) (ha : w.attempts i <+: l) : w.StopsAt i p as r := by
  have hid := (hr.known hp).id
  have hacc := hr.accounted hp
  have hcount := hr.counted hp
  obtain ⟨hcalls, hmarks⟩ := hcount
  rw [hid] at hcalls hmarks
  have hallow : p.allowance ≤ 4 := by unfold Participant.allowance; split <;> omega
  have hgo := fun hn hl => hr.goes_on hp hn hl
  unfold Accounted at hacc
  split at hacc
  · -- It has ended. Both `as ++ [r]` and its attempts stop at the first one that is not suppressed.
    rename_i o ho
    obtain ⟨bs, b, hbs, rfl, hs, hb⟩ := hacc.last hr hd hc
    rw [hid] at hbs
    have heq := eq_of_prefixes (hbs ▸ ha) hl hs hsup hb hstop
    have hbr : b = r := (List.append_inj_right' heq rfl) |> List.singleton_inj.1
    have hfull : w.attempts i = as ++ [r] := hbs.trans heq
    have hcalling : p.isCalling = false := by
      unfold Participant.isCalling
      rw [ho, Attempt.outcome]
      cases b.result <;> rfl
    refine ⟨hfull ▸ List.prefix_rfl, ⟨fun _ => hfull, fun _ => ⟨_, ho⟩⟩, fun o' ho' => ?_, fun o' ho' => ?_, hgo, ?_⟩
    · rw [ho] at ho'
      cases ho'
      rw [hbr]
    · rw [hcalls, hfull, hcalling]; rfl
    · rw [hfull, List.length_append, List.length_singleton] at hmarks
      omega
  · -- It is under way, and all its attempts so far were suppressed, so `r` is not among them.
    rename_i hn
    have hlive := hacc.suppressed
    rw [hid] at hlive
    have hpre := prefix_of_prefixes hl ha hlive hstop
    have hlen := hpre.length_le
    have hne : w.attempts i ≠ as ++ [r] := by
      intro h
      rw [h, List.length_append, List.length_singleton] at hlen
      omega
    refine ⟨hpre.trans (List.prefix_append _ _), ⟨fun ⟨o, ho⟩ => absurd ho (hn o), fun h => absurd h hne⟩,
      fun o ho => absurd ho (hn o), fun o ho => absurd ho (hn o), hgo, ?_⟩
    omega

/-- Every outcome has its cause. An invocation that is neither disposed of nor cancelled, and whose attempts come
out as in a script, stops at the first attempt of the script that succeeds or goes to the caller. -/
theorem Reachable.ends_for_a_cause (hr : w.Reachable) (hp : w.participants i = some p) :
    (∀ o, p.phase = .ended o → w.Justified p.invocation o) ∧
    ∀ script : List (Attempt α),
      (∃ a ∈ script, a.isSuppressed (w.classifier p.invocation) = false) →
      (w.attempts i <+: script ∨ script <+: w.attempts i) →
      w.client.isDisposed p.invocation.supervisor = false →
      (∀ t, p.invocation.token = some t → t ∉ w.client.cancelled) →
      ∃ as r rest, script = as ++ r :: rest ∧
        (∀ b ∈ as, b.isSuppressed (w.classifier p.invocation) = true) ∧
        r.isSuppressed (w.classifier p.invocation) = false ∧ w.StopsAt i p as r := by
  refine ⟨fun o ho => ?_, fun script hstop hfollow hd hc => ?_⟩
  · have hacc := hr.accounted hp
    unfold Accounted at hacc
    rwa [ho] at hacc
  · have hfind : (script.find? (fun a => !a.isSuppressed (w.classifier p.invocation))).isSome := by
      simpa using hstop
    obtain ⟨r, hfind⟩ := Option.isSome_iff_exists.1 hfind
    obtain ⟨hr', as, rest, hscript, has⟩ := List.find?_eq_some_iff_append.1 hfind
    have hsup : ∀ b ∈ as, b.isSuppressed (w.classifier p.invocation) = true := by simpa using has
    have hr' : r.isSuppressed (w.classifier p.invocation) = false := by simpa using hr'
    have hpre : as ++ [r] <+: script := by
      rw [hscript]
      exact ⟨rest, by simp⟩
    refine ⟨as, r, rest, hscript, hsup, hr', ?_⟩
    rcases hfollow with h | h
    · exact hr.stopsAt hp hd hc hsup hr' hpre h
    · exact hr.stopsAt hp hd hc hsup hr' (hpre.trans h) List.prefix_rfl

/-- An action that fails once on a new channel and succeeds after the delay. -/
def retried : List (Event Nat) :=
  [.deed (.supervise {}), .begin ⟨0⟩ ⟨0⟩ (some ⟨"t"⟩), .move ⟨0⟩ .enter, .move ⟨0⟩ .look, .move ⟨0⟩ .opens,
    .move ⟨0⟩ .look, .move ⟨0⟩ (.answer (.acted (.error (.unreachable "away")))), .move ⟨0⟩ .look,
    .move ⟨0⟩ (.answer .elapsed), .move ⟨0⟩ .look, .move ⟨0⟩ (.answer (.acted (.ok 7)))]

theorem ends_for_a_cause_retried : ∃ w p, (start true true).run retried = some w ∧
    w.participants ⟨0⟩ = some p ∧ p.phase = .ended (.ok 7) ∧ w.Justified p.invocation (.ok 7) ∧
    w.StopsAt ⟨0⟩ p [.acted (.error (.unreachable "away"))] (.acted (.ok 7)) := by
  obtain ⟨w, hw⟩ := Option.isSome_iff_exists.1 (rfl : ((start true true).run retried).isSome = true)
  have hr := (Reachable.start true true).run hw
  have hp : w.participants ⟨0⟩ = some
      ⟨⟨⟨0⟩, ⟨0⟩, some ⟨"t"⟩, ({} : Options).backoff.step.2, 2, .acting ⟨1⟩⟩, .ended (.ok 7)⟩ :=
    map_of_run (·.participants ⟨0⟩) hw rfl
  have ha : w.attempts ⟨0⟩ = [.acted (.error (.unreachable "away")), .acted (.ok 7)] :=
    map_of_run (·.attempts ⟨0⟩) hw rfl
  have hd : w.client.isDisposed ⟨0⟩ = false := map_of_run (·.client.isDisposed ⟨0⟩) hw rfl
  have hc : w.client.cancelled = [] := map_of_run (·.client.cancelled) hw rfl
  obtain ⟨hcause, hscript⟩ := hr.ends_for_a_cause hp
  obtain ⟨as, r, rest, hs, hsup, hstop, hat⟩ := hscript [.acted (.error (.unreachable "away")), .acted (.ok 7)]
    ⟨_, List.mem_of_getLast? rfl, rfl⟩ (.inl (ha ▸ List.prefix_rfl)) hd (by simp [hc])
  refine ⟨w, _, hw, hp, rfl, hcause _ rfl, ?_⟩
  have hfull : as ++ [r] = [.acted (.error (.unreachable "away"))] ++ [.acted (.ok 7)] :=
    (hat.ended_iff.1 ⟨_, rfl⟩).symm.trans ha
  obtain ⟨rfl, hlast⟩ := List.append_inj' hfull rfl
  cases hlast
  exact hat

end Scene

end BrokerClient
