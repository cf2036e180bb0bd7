import BrokerClient.Proofs.Simulation.World
import BrokerClient.Simulation.Turn

/-!
# Turns are moves

A turn of a task is a row of moves of its participant: it looks, does the deeds of its acts, and then answers
or rests. The lock is joined when the invocation begins, so that entering it is only the move of its owner. Without
hooks an opening is no deed and answer of a factory but one move, in which the connection answers.
-/
namespace BrokerClient.Simulation

variable {α : Type} {w : World α} {sc : Scene (ChannelId × α)} {t : Task α} {i : InvocationId}
  {p : Participant (ChannelId × α)} {hand : Option (Participant (ChannelId × α))} {direct : Bool}

/-! ## The work of a stage -/

/-- Another moment of the same wait. -/
structure Task.Alike (t t' : Task α) : Prop where
  invocation : t'.invocation = t.invocation
  since : t'.since = t.since
  outcome : t'.outcome = t.outcome

theorem Task.alike_nextCall (t : Task α) : t.Alike t.nextCall.2 := by
  unfold nextCall
  split <;> exact ⟨rfl, rfl, rfl⟩

namespace World

/-- The work is that of the stage: an answer is the one waited for. -/
inductive Work.Fits (t : Task α) : Work α → Prop where
  | waits {t' : Task α} (ht : t.Alike t')
      (he : t.invocation.stage ≠ .opening → t.errand.isHook = false → t'.errand.isHook = false) : Fits t (.waits t')
  | answers {t' : Task α} {a : Client.Answer (ChannelId × α)} (ht : t.Alike t')
      (ha : a.isFor t.invocation.stage = true) : Fits t (.answers t' a)

theorem fits_workAfter (ht : t.invocation.stage = .opening) (w : World α) (acts : List Act) (ch : ChannelId) :
    Work.Fits t (w.workAfter t acts ch).2 := by
  unfold workAfter
  split
  · exact .waits ⟨rfl, rfl, rfl⟩ (absurd ht)
  · exact .answers ⟨rfl, rfl, rfl⟩ (by rw [ht]; rfl)
  · exact .answers ⟨rfl, rfl, rfl⟩ (by rw [ht]; rfl)

theorem fits_workBefore (ht : t.invocation.stage = .opening) (w : World α) (acts after : List Act) :
    Work.Fits t (w.workBefore t acts after).2 := by
  unfold workBefore
  split
  · exact .waits ⟨rfl, rfl, rfl⟩ (absurd ht)
  · exact .answers ⟨rfl, rfl, rfl⟩ (by rw [ht]; rfl)
  · split
    · exact .answers ⟨rfl, rfl, rfl⟩ (by rw [ht]; rfl)
    · exact fits_workAfter ht _ _ _

theorem fits_workOpening (ht : t.invocation.stage = .opening) (w : World α) :
    Work.Fits t (w.workOpening t).2 := by
  unfold workOpening
  split
  · exact fits_workBefore ht _ _ _
  · exact fits_workAfter ht _ _ _
  · split <;> exact fits_workBefore ht _ _ _

theorem fits_workCall {t' : Task α} {ch : ChannelId} (ht : t.invocation.stage = .acting ch) (ha : t.Alike t')
    (w : World α) (acts : List Act) (ch' : ChannelId) (result : Except TransportError α) :
    Work.Fits t (w.workCall t' acts ch' result).2 := by
  unfold workCall
  split
  · exact .waits ⟨ha.invocation, ha.since, ha.outcome⟩ fun _ _ => rfl
  · exact .answers ha (by rw [ht]; rfl)
  · exact .answers ha (by rw [ht]; rfl)

theorem fits_workDelaying {d : Duration} (ht : t.invocation.stage = .delaying d) (w : World α) :
    Work.Fits t (w.workDelaying t d).2 := by
  simp only [workDelaying]
  split
  · exact .waits ⟨rfl, rfl, rfl⟩ fun _ he => he
  · exact .answers ⟨rfl, rfl, rfl⟩ (by rw [ht]; rfl)

/-- Without hooks the connection opens a channel and answers at once. -/
theorem workOpening_of_hookless (hh : w.hooks = []) (he : t.errand.isHook = false) :
    w.workOpening t = ({ w with client := w.client.openChannel.1 }, .answers t (.opened w.client.openChannel.2)) := by
  have hbefore : w.workOpening t = w.workBefore t [] [] := by
    unfold workOpening
    split
    · next hbefore => rw [hbefore] at he; cases he
    · next hafter => rw [hafter] at he; cases he
    · rw [hh]
  rw [hbefore]
  simp only [workBefore, act]
  generalize w.client.openChannel = r
  obtain ⟨c, e | ch⟩ := r <;> rfl

/-- After a task has its outcome, some may be woken, and its supervisor may be forgotten. -/
theorem conclude_eq (w : World α) (t : Task α) (o : Outcome (ChannelId × α)) :
    ∃ w', (w.putTask { t with outcome := some (o, w.clock), errand := .none, pause := .none }).Alike w' ∧
      w.conclude t o = w'.forget t.invocation.supervisor := by
  refine ⟨_, ?_, rfl⟩
  split
  · split
    · refine Alike.trans ?_ (alike_wake _ _)
      exact ⟨rfl, rfl, rfl, rfl, rfl⟩
    · exact ⟨rfl, rfl, rfl, rfl, rfl⟩
  · exact ⟨rfl, rfl, rfl, rfl, rfl⟩

end World

namespace Mirrors

theorem workAfter (h : Mirrors direct (some p) w sc) (hp : t.invocation.id = p.invocation.id) (acts : List Act)
    (ch : ChannelId) : sc.Onward (Mirrors direct (some p) (w.workAfter t acts ch).1) := by
  have ha := h.act (some ch) acts
  unfold World.workAfter
  rw [hp]
  split <;> rename_i hr <;> rw [hr] at ha <;> exact ha

/-- A channel that is opened among acts is opened by a deed of a factory. -/
theorem workBefore (h : Mirrors false (some p) w sc) (hp : t.invocation.id = p.invocation.id) (acts after : List Act) :
    sc.Onward (Mirrors false (some p) (w.workBefore t acts after).1) := by
  have ha := h.act none acts
  unfold World.workBefore
  rw [hp]
  split <;> rename_i hr <;> rw [hr] at ha
  · exact ha
  · exact ha
  · refine ha.trans fun sc₁ h₁ => ?_
    have ho := h₁.deed (d := .openChannel) rfl rfl
    split <;> rename_i hr <;> rw [hr] at ho
    · exact ho
    · exact ho.trans fun sc₂ h₂ => h₂.workAfter hp after _

theorem workOpening (h : Mirrors false (some p) w sc) (hp : t.invocation.id = p.invocation.id) :
    sc.Onward (Mirrors false (some p) (w.workOpening t).1) := by
  unfold World.workOpening
  split
  · exact h.workBefore hp _ _
  · exact h.workAfter hp _ _
  · split
    · exact h.workBefore hp [] []
    · rename_i hook hooks _
      have h' : Mirrors false (some p) { w with hooks } sc := { h with hooks := nofun }
      exact h'.workBefore hp hook.before hook.after

theorem workCall (h : Mirrors direct (some p) w sc) (hp : t.invocation.id = p.invocation.id) (acts : List Act)
    (ch : ChannelId) (result : Except TransportError α) :
    sc.Onward (Mirrors direct (some p) (w.workCall t acts ch result).1) := by
  have ha := h.act (some ch) acts
  unfold World.workCall
  rw [hp]
  split <;> rename_i hr <;> rw [hr] at ha
  · exact ha
  · exact ha.imp fun sc' h' => h'.alike ⟨rfl, rfl, rfl, rfl, rfl⟩
  · exact ha.imp fun sc' h' => h'.alike ⟨rfl, rfl, rfl, rfl, rfl⟩

/-- The work of a stage is a row of deeds, unless the connection opens all channels and has to open one. -/
theorem work (h : Mirrors direct (some p) w sc) (hp : p.invocation = t.invocation) (hq : t.invocation.stage ≠ .queued)
    (hd : direct = true → t.invocation.stage ≠ .opening) :
    sc.Onward (Mirrors direct (some p) (w.work t).1) ∧ World.Work.Fits t (w.work t).2 := by
  have hid : t.invocation.id = p.invocation.id := by rw [hp]
  cases hs : t.invocation.stage with
  | queued => exact absurd hs hq
  | opening =>
      simp only [World.work, hs]
      cases direct with
      | true => exact absurd hs (hd rfl)
      | false => exact ⟨h.workOpening hid, World.fits_workOpening hs w⟩
  | acting ch =>
      simp only [World.work, hs, World.workActing]
      have ha := t.alike_nextCall
      split
      · exact ⟨h.workCall hid _ _ _, World.fits_workCall hs ⟨rfl, rfl, rfl⟩ w _ _ _⟩
      · exact ⟨h.workCall (by rw [ha.invocation, hid]) _ ch _, World.fits_workCall hs ha w _ ch _⟩
  | delaying d =>
      simp only [World.work, hs]
      refine ⟨?_, World.fits_workDelaying hs w⟩
      simp only [World.workDelaying]
      split
      · exact .here (h.alike ⟨rfl, rfl, rfl, rfl, rfl⟩)
      · exact .here h

/-! ## The ends of a turn -/

theorem abandon (h : Mirrors direct hand w sc) (t : Task α) : Mirrors direct hand (w.abandon t) sc := by
  unfold World.abandon
  split
  · exact h.openGate _
  · rename_i name _
    exact h.putGate fun i hi => h.gates name i (List.mem_filter.1 hi).1
  · exact h

theorem conclude {v : Invocation} {o : Outcome (ChannelId × α)} (h : Mirrors direct (some ⟨v, .ended o⟩) w sc)
    (hid : t.invocation.id = v.id) (hs : t.invocation.supervisor = v.supervisor) :
    sc.Onward (Mirrors direct none (w.conclude t o)) := by
  obtain ⟨w', ha, he⟩ := w.conclude_eq t o
  have h' : Mirrors direct none
      (w.putTask { t with outcome := some (o, w.clock), errand := .none, pause := .none }) sc :=
    h.putTask hid (.ended rfl) fun _ => rfl
  rw [he]
  apply (h'.alike ha).forget
  rw [ha.client, hs]
  exact h.known

end Mirrors

namespace World

/-! ## Turns -/

/-- What a turn does with the progress of its invocation. -/
def follow (fuel : Nat) (w : World α) (t : Task α) (r : Client × Progress (ChannelId × α)) : World α :=
  let w := { w with client := r.1 }
  match r.2 with
  | .ended o => w.conclude t o
  | .waits i =>
    if i.stage = .queued then w.putTask t
    else go fuel (w.reach t i).1 (w.reach t i).2

/-- What a turn does with the work of a stage. -/
def resume (fuel : Nat) : World α × Work α → World α
  | (w, .waits t) => w.putTask t
  | (w, .answers t a) => follow fuel w t (w.client.answer t.invocation a)

theorem go_of_interrupted {fuel : Nat} {o : Outcome (ChannelId × α)}
    (hi : w.client.interruption? t.invocation = some o) :
    go (fuel + 1) w t = follow fuel (w.abandon t) t ((w.abandon t).client.finish t.invocation o) := by
  rw [go, hi]
  rfl

theorem go_of_paused {fuel : Nat} (hi : w.client.interruption? (α := ChannelId × α) t.invocation = none)
    (hp : w.isOver t.pause = false) : go (fuel + 1) w t = w.putTask t := by
  rw [go, hi]
  simp only [hp, Bool.not_false, if_true]

theorem go_of_queued {fuel : Nat} (hi : w.client.interruption? (α := ChannelId × α) t.invocation = none)
    (hp : w.isOver t.pause = true) (hq : t.invocation.stage = .queued) :
    go (fuel + 1) w t = follow fuel w t (w.client.enter t.invocation) := by
  rw [go, hi]
  simp only [hp, Bool.not_true, Bool.false_eq_true, if_false, hq, if_true]
  rfl

theorem go_of_work {fuel : Nat} (hi : w.client.interruption? (α := ChannelId × α) t.invocation = none)
    (hp : w.isOver t.pause = true) (hq : t.invocation.stage ≠ .queued) :
    go (fuel + 1) w t = resume fuel (w.work t) := by
  rw [go, hi]
  simp only [hp, Bool.not_true, Bool.false_eq_true, if_false, hq]
  rfl

/-! ## First turns -/

theorem begin_late (hd : w.client.isDisposed t.invocation.supervisor = true) :
    w.begin t = w.conclude t .disposed := by
  simp only [begin, Client.invoke, hd, if_true]

/-- A task as it begins to wait for the lock. -/
def joining (w : World α) (t : Task α) : Task α :=
  { t with
    invocation := w.client.fresh t.invocation.id t.invocation.supervisor t.invocation.token
    since := w.stamp }

theorem begin_in_time (hd : w.client.isDisposed t.invocation.supervisor = false) :
    w.begin t = go (w.stagesAhead t) w (w.joining t) := by
  simp only [begin, Client.invoke, hd]
  rfl

theorem abandon_of_pause (hp : t.pause = .none) : w.abandon (w.joining t) = w := by
  simp only [abandon, joining, hp]

theorem alike_reach (w : World α) (t : Task α) (i : Invocation) : w.Alike (w.reach t i).1 := by
  simp only [reach]
  split <;> exact ⟨rfl, rfl, rfl, rfl, rfl⟩

theorem reach_task (w : World α) (t : Task α) (i : Invocation) :
    (w.reach t i).2.invocation = i ∧ (w.reach t i).2.since ≠ 0 ∧ (w.reach t i).2.outcome = t.outcome ∧
      (w.reach t i).2.errand.isHook = false := by
  simp only [reach]
  split <;> exact ⟨rfl, Nat.succ_ne_zero _, rfl, rfl⟩

end World

namespace Mirrors

/-- What `go` does on less fuel is a row of moves. -/
def Goes (α : Type) (direct : Bool) (fuel : Nat) : Prop :=
  ∀ (w : World α) (t : Task α) (sc : Scene (ChannelId × α)), Mirrors direct (some ⟨t.invocation, .waiting⟩) w sc →
    t.since ≠ 0 → t.outcome = none → (direct = true → t.errand.isHook = false) →
    sc.Onward (Mirrors direct none (w.go fuel t))

theorem follow {fuel : Nat} {ph : Phase (ChannelId × α)} {m : Move (ChannelId × α)}
    {r : Client × Progress (ChannelId × α)} (hgo : Goes α direct fuel)
    (h : Mirrors direct (some ⟨t.invocation, ph⟩) w sc)
    (hm : w.client.move? ⟨t.invocation, ph⟩ m = some (Client.after t.invocation r)) (hr : m ≠ .rest)
    (hd : (direct && Scene.isForeign (.move t.invocation.id m)) = false) (ho : t.outcome = none) :
    sc.Onward (Mirrors direct none (World.follow fuel w t r)) := by
  obtain ⟨c, r⟩ := r
  have hl := Client.leads_of_move? hm
  refine (h.move hd hm).trans fun sc₁ h₁ => ?_
  cases r with
  | ended o => exact h₁.conclude rfl rfl
  | waits i =>
      have hq : i.stage ≠ .queued := hl.ne_queued (by simp) hr
      simp only [World.follow, if_neg hq]
      obtain ⟨hi, hs, ho', he⟩ := World.reach_task { w with client := c } t i
      refine hgo _ _ sc₁ ?_ hs (ho'.trans ho) fun _ => he
      rw [hi]
      exact h₁.alike (World.alike_reach _ t i)

/-- The invocation is in the lock; its owner makes its first attempt. -/
theorem entered {fuel : Nat} (hgo : Goes α direct fuel)
    (h : Mirrors direct (some ⟨t.invocation, .waiting⟩) { w with client := w.client.joined t.invocation } sc)
    (hq : t.invocation.stage = .queued) (hs : t.since ≠ 0) (ho : t.outcome = none)
    (he : direct = true → t.errand.isHook = false) :
    sc.Onward (Mirrors direct none (World.follow fuel w t (w.client.enter t.invocation))) := by
  have henter : w.client.enter (α := ChannelId × α) t.invocation =
      if ((w.client.joined t.invocation).supervisorOf t.invocation).lock.owner = some t.invocation.id then
        (w.client.joined t.invocation).attempt t.invocation
      else (w.client.joined t.invocation, .waits t.invocation) := rfl
  rw [henter]
  split
  · rename_i howner
    have hr : (.enter : Move (ChannelId × α)) ≠ .rest := by simp
    refine Mirrors.follow (w := { w with client := w.client.joined t.invocation }) hgo h ?_ hr (Bool.and_false _) ho
    simp only [Client.move?, hq, howner, or_true, and_self, if_true]
  · simp only [World.follow, hq, if_true]
    exact .here (h.putTask rfl (.underWay hs ho) he)

theorem look (h : Mirrors direct (some ⟨t.invocation, .waiting⟩) w sc)
    (hi : w.client.interruption? (α := ChannelId × α) t.invocation = none) (hq : t.invocation.stage ≠ .queued) :
    sc.Onward (Mirrors direct (some ⟨t.invocation, .turning⟩) w) := by
  have hlook : w.client.move? ⟨t.invocation, .waiting⟩ (.look : Move (ChannelId × α)) =
      some (w.client, ⟨t.invocation, .turning⟩) := by
    simp only [Client.move?, if_neg hq, hi]
  exact h.move (Bool.and_false _) hlook

/-- The connection opens the channel, and the invocation goes on with its answer. -/
theorem opened {fuel : Nat} (hgo : Goes α true fuel) (h : Mirrors true (some ⟨t.invocation, .turning⟩) w sc)
    (hs : t.invocation.stage = .opening) (ho : t.outcome = none) (he : t.errand.isHook = false) :
    sc.Onward (Mirrors true none (World.resume fuel (w.work t))) := by
  have hwork : w.work t =
      ({ w with client := w.client.openChannel.1 }, .answers t (.opened w.client.openChannel.2)) := by
    rw [World.work, hs]
    exact World.workOpening_of_hookless (h.hooks rfl) he
  have hanswer : w.client.openChannel.1.answer (α := ChannelId × α) t.invocation (.opened w.client.openChannel.2) =
      w.client.openChannel.1.opened t.invocation w.client.openChannel.2 := by
    simp only [Client.answer, hs]
  rw [hwork, World.resume, hanswer]
  refine Mirrors.follow (w := w) (m := .opens) hgo h ?_ (by simp) rfl ho
  simp only [Client.move?, if_pos hs]

theorem isForeign_of_isFor {a : Client.Answer (ChannelId × α)} {s : Stage} (ha : a.isFor s = true) (hs : s ≠ .opening)
    (i : InvocationId) : Scene.isForeign (.move i (.answer a)) = false := by
  cases a with
  | acted | elapsed => rfl
  | opened =>
      cases s with
      | opening => exact absurd rfl hs
      | queued | acting | delaying => cases ha

/-- The wait goes on: the invocation does its deeds, and answers or rests. -/
theorem worked {fuel : Nat} (hgo : Goes α direct fuel) (h : Mirrors direct (some ⟨t.invocation, .turning⟩) w sc)
    (hq : t.invocation.stage ≠ .queued) (hd : direct = true → t.invocation.stage ≠ .opening) (hs : t.since ≠ 0)
    (ho : t.outcome = none) (he : direct = true → t.errand.isHook = false) :
    sc.Onward (Mirrors direct none (World.resume fuel (w.work t))) := by
  obtain ⟨hwork, hfits⟩ := h.work rfl hq hd
  refine hwork.trans fun sc₁ h₁ => ?_
  generalize w.work t = r at h₁ hfits
  obtain ⟨w', r⟩ := r
  cases hfits with
  | waits ht he' =>
      have hrest : w'.client.move? ⟨t.invocation, .turning⟩ (.rest : Move (ChannelId × α)) =
          some (w'.client, ⟨t.invocation, .waiting⟩) := rfl
      refine (h₁.move (Bool.and_false _) hrest).imp fun sc₂ h₂ => ?_
      rw [← ht.invocation] at h₂
      exact h₂.putTask rfl (.underWay (by rwa [ht.since]) (by rwa [ht.outcome])) fun hdirect =>
        he' (hd hdirect) (he hdirect)
  | @answers t' a ht ha =>
      have hforeign : (direct && Scene.isForeign (.move t'.invocation.id (.answer a))) = false := by
        cases direct with
        | false => rfl
        | true => exact isForeign_of_isFor ha (hd rfl) t'.invocation.id
      rw [← ht.invocation] at h₁ ha
      refine h₁.follow hgo (m := .answer a) ?_ (by simp) hforeign (ht.outcome.trans ho)
      simp only [Client.move?, ha, if_true]

theorem go (fuel : Nat) : Goes α direct fuel := by
  induction fuel with
  | zero => exact fun w t sc h hs ho he => .here (h.putTask rfl (.underWay hs ho) he)
  | succ fuel ih =>
      intro w t sc h hs ho he
      cases hi : w.client.interruption? (α := ChannelId × α) t.invocation with
      | some o =>
          rw [World.go_of_interrupted hi]
          have h' := h.abandon t
          have hc : (w.abandon t).client = w.client := h'.client.symm.trans h.client
          rw [← hc] at hi
          obtain ⟨m, hm, hmove⟩ := Client.exists_move?_of_interrupted (p := ⟨t.invocation, .waiting⟩) rfl hi
          rcases hm with rfl | rfl <;> exact h'.follow ih hmove (by simp) (Bool.and_false _) ho
      | none =>
          cases hp : w.isOver t.pause with
          | false =>
              rw [World.go_of_paused hi hp]
              exact .here (h.putTask rfl (.underWay hs ho) he)
          | true =>
              by_cases hq : t.invocation.stage = .queued
              · rw [World.go_of_queued hi hp hq]
                have hj := h.reachable.joined_eq (h.inHand _ rfl).1 (by simp)
                rw [h.client] at hj
                refine entered ih ?_ hq hs ho he
                rw [hj]
                exact h
              · rw [World.go_of_work hi hp hq]
                refine (h.look hi hq).trans fun sc₁ h₁ => ?_
                by_cases hopening : direct = true ∧ t.invocation.stage = .opening
                · obtain ⟨rfl, hstage⟩ := hopening
                  exact h₁.opened ih hstage ho (he rfl)
                · exact h₁.worked ih hq (fun hd hstage => hopening ⟨hd, hstage⟩) hs ho he

theorem first (h : Mirrors direct none w sc) (ht : w.task? i = some t) (ho : t.outcome = none) (hs : t.since = 0)
    (hw : w.stamp ≠ 0) : sc.Onward (Mirrors direct none (w.begin t)) := by
  obtain rfl := h.ids i t ht
  have hplays := h.tasks t.invocation.id (by simp)
  rw [ht] at hplays
  generalize hp : sc.participants t.invocation.id = p at hplays
  cases hplays with
  | underWay hs' => exact absurd hs hs'
  | ended ho' => rw [ho] at ho'; cases ho'
  | unbegun _ _ hpause =>
      have hb := w.client.begun (α := ChannelId × α) t.invocation.id t.invocation.supervisor t.invocation.token
      generalize hr : w.client.begin (α := ChannelId × α) t.invocation.id t.invocation.supervisor
        t.invocation.token = r at hb
      refine (h.begin ht hp hr).trans fun sc₁ h₁ => ?_
      have hf : w.stagesAhead t = 3 * (t.script.calls.length + w.hooks.length +
          w.client.connection.failures.length) + 5 + 1 := by
        simp only [World.stagesAhead]
        omega
      obtain ⟨c, q⟩ := r
      cases hb with
      | late hd =>
          rw [World.begin_late hd]
          exact h₁.conclude rfl rfl
      | cancelled hd htok hc =>
          have hi : w.client.interruption? (α := ChannelId × α) (w.joining t).invocation = some .cancelled := by
            simp only [World.joining, Client.interruption?, hd, htok, hc, Bool.false_eq_true, if_false,
              Option.any_some, decide_true, if_true]
          rw [World.begin_in_time hd, hf, World.go_of_interrupted hi, World.abandon_of_pause hpause]
          exact h₁.conclude rfl rfl
      | joins hd hi =>
          have hi' : w.client.interruption? (α := ChannelId × α) (w.joining t).invocation = none := hi
          have hover : w.isOver (w.joining t).pause = true := by
            simp only [World.joining, hpause, World.isOver]
          rw [World.begin_in_time hd, hf, World.go_of_queued hi' hover rfl]
          exact Mirrors.entered (go _) h₁ rfl hw ho fun hd => h.errands hd _ t ht

theorem taken (h : Mirrors direct none w sc) (ht : w.task? i = some t) (ho : t.outcome = none) (hw : w.stamp ≠ 0) :
    sc.Onward (Mirrors direct none (if t.since = 0 then w.begin t else World.go (w.stagesAhead t) w t)) := by
  split
  · rename_i hs
    exact h.first ht ho hs hw
  · rename_i hs
    exact go _ w t sc (h.take ht ho hs) hs ho fun hd => h.errands hd i t ht

theorem turn (h : Mirrors direct none w sc) (i : InvocationId) : sc.Onward (Mirrors direct none (w.turn i)) := by
  simp only [World.turn]
  split
  · exact .here h
  · rename_i t ht
    split
    · exact .here h
    · rename_i hd
      have ho : t.outcome = none := by simpa [Task.isDone] using hd
      have h' : Mirrors direct none { w with current := some i, rewoken := false, stamp := w.stamp + 1 } sc :=
        h.alike ⟨rfl, rfl, rfl, rfl, rfl⟩
      refine (h'.taken ht ho (Nat.succ_ne_zero _)).imp fun sc' h' => ?_
      generalize (ite (t.since = 0) _ _ : World α) = w' at h' ⊢
      split
      · refine Mirrors.alike ?_ (World.alike_wake _ _)
        exact h'.alike ⟨rfl, rfl, rfl, rfl, rfl⟩
      · exact h'.alike ⟨rfl, rfl, rfl, rfl, rfl⟩

end Mirrors

end BrokerClient.Simulation
