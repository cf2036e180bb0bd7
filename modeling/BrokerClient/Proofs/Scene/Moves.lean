import BrokerClient.Proofs.Client.Views
import BrokerClient.Proofs.Scene.Basic

/-!
# What a move can come to

`Leads` lists the ways in which a move of an invocation comes out, one constructor for each, with the
client and the invocation that it leads to. `leads_of_move?` says that there are no others; every
property of runs is proved by cases on it.
-/
namespace BrokerClient

namespace Client

variable {α : Type} {c c' : Client} {v : Invocation} {p q : Participant α} {m : Move α}

/-! ## The parts of a step -/

theorem after_fst (v : Invocation) (x : Client × Progress α) : (after v x).1 = x.1 := by
  obtain ⟨c, pr⟩ := x
  cases pr <;> rfl

/-- The invocation has given up the lock or its place in the queue. -/
def left (c : Client) (v : Invocation) : Client :=
  c.modify v.supervisor (fun s => { s with lock := s.lock.leave v.id })

/-- The invocation has taken the lock or a place in its queue. -/
def joined (c : Client) (v : Invocation) : Client :=
  c.modify v.supervisor (fun s => { s with lock := s.lock.join v.id })

theorem finish_eq (c : Client) (v : Invocation) (o : Outcome α) : c.finish v o = (c.left v, .ended o) :=
  rfl

/-- An attempt has failed: the channel is let go if the verdict says so, and the failure is reported. -/
def failed (c : Client) (v : Invocation) (e : TransportError) : Client :=
  let verdict := (c.supervisor v.supervisor).options.classifier.classify e
  let fields := [("attempt", toString v.attempt.toNat), ("error", e.message), ("verdict", verdict.name)]
  (if verdict.closes then c.closeHeld v.supervisor else c).record
    (if verdict.rethrows then ⟨.debug, "channel action failed", fields⟩
      else ⟨.warn, "channel action failed, retrying", fields ++ [("delay", v.backoff.step.1.text)]⟩)

def verdict (c : Client) (v : Invocation) (e : TransportError) : Verdict :=
  (c.supervisor v.supervisor).options.classifier.classify e

theorem fail_of_rethrows {e : TransportError} (h : (c.verdict v e).rethrows = true) :
    c.fail (α := α) v e = ((c.failed v e).left v, .ended (.failed e)) := by
  simp only [verdict] at h
  simp only [fail, failed, supervisorOf, h, if_true, finish_eq]
  rfl

theorem fail_of_suppresses {e : TransportError} (h : (c.verdict v e).rethrows = false) :
    c.fail (α := α) v e = (c.failed v e,
      .waits { v with backoff := v.backoff.step.2, stage := .delaying v.backoff.step.1 }) := by
  simp only [verdict] at h
  simp only [fail, failed, supervisorOf, h]
  rfl

/-- The discard of a channel that was found closed. -/
def discarded (c : Client) (s : SupervisorId) (h : Held) : Client :=
  (c.record ⟨.debug, "held channel is closed, discarding", [("channel", h.channel.text)]⟩).closeHeld s

/-! ## The ways of a move -/

/-- An opening is answered by the connection or by a factory around it. -/
inductive Opens (c : Client) : Move α → Client → Except TransportError ChannelId → Prop where
  | own : Opens c .opens c.openChannel.1 c.openChannel.2
  | foreign (r : Except TransportError ChannelId) : Opens c (.answer (.opened r)) c r

theorem Opens.ne_rest {r : Except TransportError ChannelId} (h : Opens c m c' r) : m ≠ .rest := by
  cases h <;> simp

/-- An attempt fails, before the verdict on it. -/
inductive Fails (c : Client) (v : Invocation) : Move α → Attempt α → Client → TransportError → Prop where
  | unopened {m : Move α} {c₁ : Client} {e : TransportError} (hs : v.stage = .opening)
      (ho : Opens c m c₁ (.error e)) : Fails c v m (.unopened e) c₁ e
  | unattached {m : Move α} {c₀ c₁ : Client} {e : TransportError} {ch : ChannelId}
      (hs : v.stage = .opening) (ho : Opens c m c₀ (.ok ch)) (ha : c₀.attach v.supervisor ch = (c₁, .error e)) :
      Fails c v m (.unattached e) c₁ e
  | acted {e : TransportError} {ch : ChannelId} (hs : v.stage = .acting ch) :
      Fails c v (.answer (.acted (.error e))) (.acted (.error e)) c e

theorem Fails.ne_queued {a : Attempt α} {e : TransportError} (h : Fails c v m a c' e) : v.stage ≠ .queued := by
  cases h with
  | unopened hs | unattached hs | acted hs => simp [hs]

theorem Fails.ne_rest {a : Attempt α} {e : TransportError} (h : Fails c v m a c' e) : m ≠ .rest := by
  cases h with
  | unopened _ ho | unattached _ ho => exact ho.ne_rest
  | acted => simp

theorem Fails.result {a : Attempt α} {e : TransportError} (h : Fails c v m a c' e) : a.result = .error e := by
  cases h <;> rfl

/-- An attempt begins: with the lock in hand, or after a delay. -/
inductive Begins (c : Client) (v : Invocation) : Move α → Prop where
  | granted (hq : v.stage = .queued) (hl : (c.supervisor v.supervisor).lock.owner = some v.id) : Begins c v .enter
  | again {d : Duration} (hd : v.stage = .delaying d) : Begins c v (.answer .elapsed)

theorem Begins.ne_rest (h : Begins c v m) : m ≠ .rest := by
  cases h <;> simp

/-- What a move comes to, with the attempt that it brings to its end. -/
inductive Leads (c : Client) (v : Invocation) (m : Move α) :
    Option (Attempt α) → Client → Participant α → Prop where
  | looked (hm : m = .look) (hq : v.stage ≠ .queued) (hi : c.interruption? (α := α) v = none) :
      Leads c v m none c ⟨v, .turning⟩
  | rested (hm : m = .rest) : Leads c v m none c ⟨v, .waiting⟩
  | givenUp {o : Outcome α} (hm : m ≠ .rest) (hi : c.interruption? v = some o) :
      Leads c v m none (c.left v) ⟨v, .ended o⟩
  | unheld (hb : Begins c v m) (hi : c.interruption? (α := α) v = none)
      (hh : (c.supervisor v.supervisor).held = none) :
      Leads c v m none c ⟨{ v with attempt := v.attempt + 1, stage := .opening }, .waiting⟩
  | discards {h : Held} (hb : Begins c v m) (hi : c.interruption? (α := α) v = none)
      (hh : (c.supervisor v.supervisor).held = some h) (ho : c.isOpen h.channel = false) :
      Leads c v m none (c.discarded v.supervisor h)
        ⟨{ v with attempt := v.attempt + 1, stage := .opening }, .waiting⟩
  | reuses {h : Held} (hb : Begins c v m) (hi : c.interruption? (α := α) v = none)
      (hh : (c.supervisor v.supervisor).held = some h) (ho : c.isOpen h.channel = true) :
      Leads c v m none c ⟨{ v with attempt := v.attempt + 1, stage := .acting h.channel }, .waiting⟩
  | attaches {c₀ c' : Client} {ch : ChannelId} (hs : v.stage = .opening) (ho : Opens c m c₀ (.ok ch))
      (ha : c₀.attach v.supervisor ch = (c', .ok ())) (hd : c'.isDisposed v.supervisor = false) :
      Leads c v m none c' ⟨{ v with stage := .acting ch }, .waiting⟩
  | orphans {c₀ c' : Client} {ch : ChannelId} (hs : v.stage = .opening) (ho : Opens c m c₀ (.ok ch))
      (ha : c₀.attach v.supervisor ch = (c', .ok ())) (hd : c'.isDisposed v.supervisor = true) :
      Leads c v m none ((c'.closeHeld v.supervisor).left v) ⟨v, .ended .aborted⟩
  | throws {a : Attempt α} {c₁ : Client} {e : TransportError} (hf : Fails c v m a c₁ e)
      (hr : (c₁.verdict v e).rethrows = true) :
      Leads c v m (some a) ((c₁.failed v e).left v) ⟨v, .ended (.failed e)⟩
  | suppresses {a : Attempt α} {c₁ : Client} {e : TransportError} (hf : Fails c v m a c₁ e)
      (hr : (c₁.verdict v e).rethrows = false) :
      Leads c v m (some a) (c₁.failed v e)
        ⟨{ v with backoff := v.backoff.step.2, stage := .delaying v.backoff.step.1 }, .waiting⟩
  | succeeds {a : α} {ch : ChannelId} (hs : v.stage = .acting ch) (hm : m = .answer (.acted (.ok a))) :
      Leads c v m (some (.acted (.ok a))) (c.left v) ⟨v, .ended (.ok a)⟩

theorem leads_of_attempt (hm : m ≠ .rest) (hb : (c.interruption? (α := α) v).isSome ∨ Begins c v m) :
    Leads c v m none (after v (c.attempt (α := α) v)).1 (after v (c.attempt (α := α) v)).2 := by
  unfold attempt
  split
  · rename_i o hi
    exact .givenUp hm hi
  · rename_i hi
    have hb : Begins c v m := hb.resolve_left (by simp [hi])
    cases hh : (c.supervisor v.supervisor).held with
    | none =>
        simp only [supervisorOf, Supervisor.channel?, hh, Option.map_none]
        exact .unheld hb hi hh
    | some h =>
        simp only [supervisorOf, Supervisor.channel?, hh, Option.map_some]
        split
        · rename_i ho
          exact .reuses hb hi hh ho
        · rename_i ho
          exact .discards hb hi hh (by simpa using ho)

theorem leads_of_fail {a : Attempt α} {c₁ : Client} {e : TransportError} (hf : Fails c v m a c₁ e) :
    Leads c v m (some a) (after v (c₁.fail (α := α) v e)).1 (after v (c₁.fail (α := α) v e)).2 := by
  cases hr : (c₁.verdict v e).rethrows with
  | true => rw [fail_of_rethrows hr]; exact .throws hf hr
  | false => rw [fail_of_suppresses hr]; exact .suppresses hf hr

theorem leads_of_opened {c₀ : Client} {r : Except TransportError ChannelId} (hs : v.stage = .opening)
    (ho : Opens c m c₀ r) :
    Leads c v m (c₀.opening? v r) (after v (c₀.opened (α := α) v r)).1
      (after v (c₀.opened (α := α) v r)).2 := by
  cases r with
  | error e => exact leads_of_fail (.unopened hs ho)
  | ok ch =>
      cases ha : c₀.attach v.supervisor ch with
      | mk c₁ r =>
          cases r with
          | error e =>
              simp only [opened, opening?, ha]
              exact leads_of_fail (.unattached hs ho ha)
          | ok u =>
              simp only [opened, opening?, ha]
              split
              · rename_i hd
                exact .orphans hs ho ha hd
              · rename_i hd
                exact .attaches hs ho ha (eq_false_of_ne_true hd)

/-- What each move is, by the phase in which it can be made. -/
inductive Moved (c : Client) (v : Invocation) : Phase α → Move α → Client × Participant α → Prop where
  | enters (hq : v.stage = .queued)
      (hg : (c.interruption? (α := α) v).isSome ∨ (c.supervisor v.supervisor).lock.owner = some v.id) :
      Moved c v .waiting .enter (after v (c.attempt v))
  | leaves {o : Outcome α} (hq : v.stage ≠ .queued) (hi : c.interruption? v = some o) :
      Moved c v .waiting .look (c.left v, ⟨v, .ended o⟩)
  | looks (hq : v.stage ≠ .queued) (hi : c.interruption? (α := α) v = none) :
      Moved c v .waiting .look (c, ⟨v, .turning⟩)
  | opens (hs : v.stage = .opening) :
      Moved c v .turning .opens (after v (c.openChannel.1.opened v c.openChannel.2))
  | answers {a : Answer α} (ha : a.isFor v.stage = true) : Moved c v .turning (.answer a) (after v (c.answer v a))
  | rests : Moved c v .turning .rest (c, ⟨v, .waiting⟩)

theorem moved_of_move? {x : Client × Participant α} (h : c.move? p m = some x) :
    Moved c p.invocation p.phase m x := by
  obtain ⟨v, ph⟩ := p
  cases ph with
  | ended o => cases m <;> simp [move?] at h
  | waiting =>
      cases m with
      | opens | answer | rest => simp [move?] at h
      | enter =>
          simp only [move?] at h
          split at h
          · rename_i hg
            cases h
            exact .enters hg.1 hg.2
          · cases h
      | look =>
          simp only [move?] at h
          split at h
          · cases h
          · rename_i hq
            split at h
            · rename_i o hi
              cases h
              exact .leaves hq hi
            · rename_i hi
              cases h
              exact .looks hq hi
  | turning =>
      cases m with
      | enter | look => simp [move?] at h
      | rest => cases h; exact .rests
      | opens =>
          simp only [move?] at h
          split at h
          · rename_i hs
            cases h
            exact .opens hs
          · cases h
      | answer a =>
          simp only [move?] at h
          split at h
          · rename_i ha
            cases h
            exact .answers ha
          · cases h

theorem leads_of_answer {a : Answer α} (ha : a.isFor v.stage = true) :
    Leads c v (.answer a) (c.attempted? v (.answer a)) (after v (c.answer v a)).1 (after v (c.answer v a)).2 := by
  cases a with
  | opened r =>
      cases hs : v.stage <;> simp [Answer.isFor, hs] at ha
      simp only [answer, hs]
      exact leads_of_opened hs (.foreign r)
  | acted r =>
      cases hs : v.stage <;> simp [Answer.isFor, hs] at ha
      simp only [answer, hs]
      cases r with
      | error e => exact leads_of_fail (.acted hs)
      | ok a => exact .succeeds hs rfl
  | elapsed =>
      cases hs : v.stage <;> simp [Answer.isFor, hs] at ha
      simp only [answer, hs]
      exact leads_of_attempt (by simp) (.inr (.again hs))

theorem leads_of_move? (h : c.move? p m = some (c', q)) :
    Leads c p.invocation m (c.attempted? p.invocation m) c' q := by
  have hm := moved_of_move? h
  obtain ⟨v, ph⟩ := p
  generalize hx : (c', q) = x at hm
  obtain ⟨rfl, rfl⟩ := Prod.ext_iff.1 hx
  cases hm with
  | enters hq hg => exact leads_of_attempt (by simp) (hg.imp_right (.granted hq))
  | leaves hq hi => exact .givenUp (by simp) hi
  | looks hq hi => exact .looked rfl hq hi
  | opens hs => exact leads_of_opened hs .own
  | answers ha => exact leads_of_answer ha
  | rests => exact .rested rfl

theorem phase_of_move? (h : c.move? p m = some (c', q)) (o : Outcome α) : p.phase ≠ .ended o := by
  intro hp
  have hm := moved_of_move? h
  rw [hp] at hm
  cases hm

/-! ## Waits that are given up -/

theorem attempt_of_interrupted {o : Outcome α} (hi : c.interruption? v = some o) :
    c.attempt v = (c.left v, .ended o) := by
  simp only [attempt, hi, finish_eq]

/-- A wait that is to be given up is given up by the next move, whatever has come in the meantime. -/
theorem move?_of_interrupted {o : Outcome α} (hp : p.phase = .waiting)
    (hi : c.interruption? p.invocation = some o) (h : c.move? p m = some (c', q)) :
    m ≠ .rest ∧ c' = c.left p.invocation ∧ q = ⟨p.invocation, .ended o⟩ := by
  have hm := moved_of_move? h
  rw [hp] at hm
  generalize hx : (c', q) = x at hm
  cases hm with
  | enters hq hg =>
      rw [attempt_of_interrupted hi] at hx
      exact ⟨by simp, Prod.ext_iff.1 hx⟩
  | leaves hq ho =>
      obtain rfl := Option.some.inj (hi.symm.trans ho)
      exact ⟨by simp, Prod.ext_iff.1 hx⟩
  | looks hq hn => cases hi.symm.trans hn

theorem exists_move?_of_interrupted {o : Outcome α} (hp : p.phase = .waiting)
    (hi : c.interruption? p.invocation = some o) :
    ∃ m, (m = .enter ∨ m = .look) ∧ c.move? p m = some (c.left p.invocation, ⟨p.invocation, .ended o⟩) := by
  obtain ⟨v, ph⟩ := p
  simp only at hp hi
  subst hp
  by_cases hs : v.stage = .queued
  · refine ⟨.enter, .inl rfl, ?_⟩
    simp only [move?]
    rw [if_pos ⟨hs, .inl (by rw [hi]; rfl)⟩, attempt_of_interrupted hi]
    rfl
  · refine ⟨.look, .inr rfl, ?_⟩
    simp only [move?, if_neg hs, hi, finish_eq]
    rfl

/-- An opening that is answered goes on with the answer. -/
theorem move?_of_opens {c₀ : Client} {r : Except TransportError ChannelId} (ho : Opens c m c₀ r)
    (h : c.move? p m = some (c', q)) :
    p.invocation.stage = .opening ∧ (c', q) = after p.invocation (c₀.opened p.invocation r) := by
  have hm := moved_of_move? h
  generalize p.phase = ph at hm
  generalize (c', q) = x at hm ⊢
  cases ho with
  | own => cases hm with | opens hs => exact ⟨hs, rfl⟩
  | foreign =>
      cases hm with
      | answers hf =>
          cases hs : p.invocation.stage <;> simp [Answer.isFor, hs] at hf
          exact ⟨rfl, by simp only [answer, hs]⟩

/-- In its turn an action answers or does not. -/
theorem move?_of_acting {ch : ChannelId} (hp : p.phase = .turning) (hs : p.invocation.stage = .acting ch)
    (h : c.move? p m = some (c', q)) :
    (m = .rest ∧ c' = c ∧ q = ⟨p.invocation, .waiting⟩) ∨
      ∃ r, m = .answer (.acted r) ∧ (c', q) = after p.invocation (c.acted p.invocation r) := by
  have hm := moved_of_move? h
  rw [hp] at hm
  generalize hx : (c', q) = x at hm ⊢
  cases hm with
  | opens ho => cases hs.symm.trans ho
  | rests => exact .inl ⟨rfl, Prod.ext_iff.1 hx⟩
  | @answers a ha =>
      cases a <;> simp [Answer.isFor, hs] at ha
      exact .inr ⟨_, rfl, by simp only [answer, hs]⟩

end Client

end BrokerClient
