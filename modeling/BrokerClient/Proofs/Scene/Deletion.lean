import BrokerClient.Proofs.Scene.Locking

/-!
# Deletion

What a client does without one invocation in its locks. Every operation of others does the same there
(`step_without`), so that an invocation that never came past the queue can be deleted from a run (`run_without`).
-/
namespace BrokerClient

namespace Client

variable {α : Type} {c c' : Client} {s : SupervisorId} {v : Invocation} {a : InvocationId}

def without (c : Client) (a : InvocationId) : Client :=
  { c with supervisors := c.supervisors.map (fun s => { s with lock := s.lock.leave a }) }

/-! ## Operations that do not touch locks -/

@[simp] theorem supervisor_without (c : Client) (a : InvocationId) (s : SupervisorId) :
    (c.without a).supervisor s = { c.supervisor s with lock := (c.supervisor s).lock.leave a } := by
  simp only [without, supervisor, List.getD_eq_getElem?_getD, List.getElem?_map]
  cases c.supervisors[s.number]? <;> rfl

@[simp] theorem connection_without (c : Client) (a : InvocationId) : (c.without a).connection = c.connection :=
  rfl

@[simp] theorem length_without (c : Client) (a : InvocationId) :
    (c.without a).supervisors.length = c.supervisors.length := by
  simp [without]

@[simp] theorem isDisposed_without (c : Client) (a : InvocationId) (s : SupervisorId) :
    (c.without a).isDisposed s = c.isDisposed s := by
  simp only [isDisposed, supervisor_without]

@[simp] theorem interruption?_without (c : Client) (a : InvocationId) (v : Invocation) :
    (c.without a).interruption? (α := α) v = c.interruption? v := by
  simp only [interruption?, isDisposed_without]
  rfl

/-- A change of a supervisor, and the change that it is without the invocation. -/
theorem without_modify {f g : Supervisor → Supervisor}
    (h : { f (c.supervisor s) with lock := (f (c.supervisor s)).lock.leave a } =
      g { c.supervisor s with lock := (c.supervisor s).lock.leave a }) :
    (c.modify s f).without a = (c.without a).modify s g := by
  have hs : (c.supervisors.modify s.number f).map (fun s => { s with lock := s.lock.leave a }) =
      (c.supervisors.map fun s => { s with lock := s.lock.leave a }).modify s.number g := by
    apply List.ext_getElem?
    intro n
    simp only [List.getElem?_map, List.getElem?_modify]
    by_cases hn : s.number = n
    · subst hn
      cases hc : c.supervisors[s.number]? with
      | none => rfl
      | some x =>
          have hx : c.supervisor s = x := by simp [supervisor, hc]
          rw [hx] at h
          simp only [Option.map_some, if_true]
          exact congrArg some h
    · simp only [hn, if_false]
      cases c.supervisors[n]? <;> rfl
  simp only [modify, without, hs]

theorem modify_without {f : Supervisor → Supervisor}
    (h : f { c.supervisor s with lock := (c.supervisor s).lock.leave a } =
      { f (c.supervisor s) with lock := (f (c.supervisor s)).lock.leave a }) :
    (c.without a).modify s f = (c.modify s f).without a :=
  (without_modify h.symm).symm

theorem modify_without_self {f : Supervisor → Supervisor}
    (h : { f (c.supervisor s) with lock := (f (c.supervisor s)).lock.leave a } =
      { c.supervisor s with lock := (c.supervisor s).lock.leave a }) :
    (c.modify s f).without a = c.without a := by
  rw [without_modify (g := id) h]
  simp only [modify, List.modify_id]

theorem closeHeld_without (c : Client) (s : SupervisorId) (a : InvocationId) :
    (c.without a).closeHeld s = (c.closeHeld s).without a := by
  cases hh : (c.supervisor s).held with
  | none => rw [closeHeld_of_none hh, closeHeld_of_none (by rw [supervisor_without]; exact hh)]
  | some k =>
      have hh' : ((c.without a).supervisor s).held = some k := by rw [supervisor_without]; exact hh
      simp only [closeHeld, hh, hh', modify_without (c := c) (s := s) (f := ({ · with held := none })) rfl]
      rfl

theorem openChannel_without (c : Client) (a : InvocationId) :
    (c.without a).openChannel = (c.openChannel.1.without a, c.openChannel.2) := by
  cases hf : c.connection.failures with
  | nil =>
      simp only [openChannel, Connection.openChannel, hf, connection_without]
      rfl
  | cons e rest =>
      simp only [openChannel, Connection.openChannel, hf, connection_without]
      rfl

theorem confirmSelect_without (c : Client) (id : ChannelId) (a : InvocationId) :
    (c.without a).confirmSelect id = (c.confirmSelect id).map (·.without a) := by
  simp only [confirmSelect, connection_without]
  cases c.connection.channel? id with
  | none => rfl
  | some ch =>
      simp only [bind, Except.bind]
      cases ch.confirmSelect <;> rfl

theorem holds_without (c : Client) (s : SupervisorId) (a : InvocationId) (n : Connection Listener) (k : Option Held)
    (r : Log.Record) :
    ({ c.without a with connection := n }.modify s ({ · with held := k, everHeld := true })).record r =
      (({ c with connection := n }.modify s ({ · with held := k, everHeld := true })).record r).without a :=
  congrArg (fun c : Client => c.record r) (modify_without (c := { c with connection := n }) rfl)

theorem hold_without (c : Client) (s : SupervisorId) (id : ChannelId) (a : InvocationId) :
    (c.without a).hold s id = (c.hold s id).without a := by
  simp only [hold, supervisor_without, connection_without]
  exact holds_without c s a _ _ _

theorem attach_without (c : Client) (s : SupervisorId) (id : ChannelId) (a : InvocationId) :
    (c.without a).attach s id = ((c.attach s id).1.without a, (c.attach s id).2) := by
  unfold attach
  simp only [supervisor_without, confirmSelect_without, connection_without]
  split
  · rfl
  · by_cases ho : (c.supervisor s).options.confirms = true
    · simp only [if_pos ho]
      cases c.confirmSelect id with
      | error e => rfl
      | ok c₁ => simp only [Except.map, hold_without]
    · simp only [if_neg ho, hold_without]

theorem failed_without (c : Client) (v : Invocation) (e : TransportError) (a : InvocationId) :
    (c.without a).failed v e = (c.failed v e).without a := by
  unfold failed
  simp only [supervisor_without, closeHeld_without]
  split <;> rfl

theorem dispose_without (c : Client) (s : SupervisorId) (a : InvocationId) :
    (c.without a).dispose s = (c.dispose s).without a := by
  cases hd : c.isDisposed s with
  | true => simp only [dispose, isDisposed_without, hd, if_true]
  | false =>
      simp only [dispose, isDisposed_without, hd, Bool.false_eq_true, if_false]
      rw [modify_without (c := c) (s := s) (f := ({ · with disposed := true })) rfl, closeHeld_without]
      rfl

theorem addSupervisor_without (c : Client) (o : Options) (a : InvocationId) :
    ((c.without a).addSupervisor o).1 = (c.addSupervisor o).1.without a := by
  simp only [addSupervisor, without, List.map_append, List.map_cons, List.map_nil]
  rfl

theorem perform?_without {d : Deed} (h : c.perform? d = some c') :
    (c.without a).perform? d = some (c'.without a) := by
  cases d with
  | supervise o => cases h; exact congrArg some (addSupervisor_without c o a)
  | openChannel => cases h; exact congrArg some (congrArg Prod.fst (openChannel_without c a))
  | failNext | listen | listenRecovery => cases h; rfl
  | cancel t =>
      cases h
      simp only [perform?, cancel, show (c.without a).cancelled = c.cancelled from rfl]
      split <;> rfl
  | dispose s =>
      simp only [perform?, length_without] at h ⊢
      split at h
      · rename_i hs
        cases h
        rw [if_pos hs, dispose_without]
      · cases h
  | confirmSelect ch =>
      simp only [perform?, confirmSelect_without] at h ⊢
      cases hc : c.confirmSelect ch with
      | error e => rw [hc] at h; cases h
      | ok c₁ => rw [hc] at h; cases h; rfl
  | signal ch g | close ch =>
      simp only [perform?] at h ⊢
      split at h
      · rename_i hk
        cases h
        rw [if_pos (show (c.without a).knows ch = true from hk)]
        rfl
      · cases h
  | unlisten ch l | unlistenRecovery ch l =>
      simp only [perform?] at h ⊢
      split at h
      · cases h
      · rename_i hk
        cases h
        rw [connection_without, if_neg hk]
        rfl

/-! ## Locks -/

theorem left_without (h : (c.supervisor v.supervisor).lock.Orderly) :
    (c.without a).left v = (c.left v).without a := by
  refine modify_without (f := fun s => { s with lock := s.lock.leave v.id }) ?_
  simp only [Lock.leave_leave h v.id a]

theorem joined_without (h : (c.supervisor v.supervisor).lock.Orderly)
    (hv : v.id ∉ (c.supervisor v.supervisor).lock.members) (hav : a ≠ v.id) :
    (c.without a).joined v = (c.joined v).without a := by
  refine modify_without (f := fun s => { s with lock := s.lock.join v.id }) ?_
  simp only [Lock.leave_join h hv hav]

theorem left_without_self (h : (c.supervisor v.supervisor).lock.Orderly) :
    (c.left v).without v.id = c.without v.id := by
  refine modify_without_self (f := fun s => { s with lock := s.lock.leave v.id }) ?_
  simp only [Lock.leave_idem h]

theorem joined_without_self (h : (c.supervisor v.supervisor).lock.Orderly)
    (hv : v.id ∉ (c.supervisor v.supervisor).lock.members) : (c.joined v).without v.id = c.without v.id := by
  refine modify_without_self (f := fun s => { s with lock := s.lock.join v.id }) ?_
  simp only [Lock.join_leave h hv, Lock.leave_of_notMem hv]

/-! ## Moves of others -/

theorem verdict_without (c : Client) (v : Invocation) (e : TransportError) (a : InvocationId) :
    (c.without a).verdict v e = c.verdict v e := by
  simp only [verdict, supervisor_without]

theorem after_without (v : Invocation) (r : Client × Progress α) (a : InvocationId) :
    after v (r.1.without a, r.2) = ((after v r).1.without a, (after v r).2) := by
  obtain ⟨c, p⟩ := r
  cases p <;> rfl

theorem finish_without (o : Outcome α) (h : (c.supervisor v.supervisor).lock.Orderly) :
    (c.without a).finish v o = ((c.finish v o).1.without a, (c.finish v o).2) := by
  simp only [finish_eq, left_without h]

theorem attempt_without (h : (c.supervisor v.supervisor).lock.Orderly) :
    (c.without a).attempt (α := α) v = ((c.attempt (α := α) v).1.without a, (c.attempt (α := α) v).2) := by
  simp only [attempt, interruption?_without, supervisorOf, supervisor_without]
  cases c.interruption? (α := α) v with
  | some o => exact finish_without o h
  | none =>
      simp only [Supervisor.channel?]
      cases (c.supervisor v.supervisor).held with
      | none => rfl
      | some k =>
          cases ho : c.isOpen k.channel with
          | true =>
              have ho' : (c.without a).isOpen k.channel = true := ho
              simp only [Option.map_some, ho, ho', if_true]
          | false =>
              have ho' : (c.without a).isOpen k.channel = false := ho
              simp only [Option.map_some, ho, ho', Bool.false_eq_true, if_false]
              exact congrArg (fun c : Client => (c, _)) (closeHeld_without (c.record _) _ _)

theorem fail_without (e : TransportError) (h : (c.supervisor v.supervisor).lock.Orderly) :
    (c.without a).fail (α := α) v e = ((c.fail (α := α) v e).1.without a, (c.fail (α := α) v e).2) := by
  cases hr : (c.verdict v e).rethrows with
  | true =>
      rw [fail_of_rethrows hr, fail_of_rethrows (by rw [verdict_without]; exact hr), failed_without,
        left_without (by rw [lock_failed]; exact h)]
  | false =>
      rw [fail_of_suppresses hr, fail_of_suppresses (by rw [verdict_without]; exact hr), failed_without]

theorem opened_without (r : Except TransportError ChannelId) (h : (c.supervisor v.supervisor).lock.Orderly) :
    (c.without a).opened (α := α) v r = ((c.opened (α := α) v r).1.without a, (c.opened (α := α) v r).2) := by
  cases r with
  | error e => exact fail_without e h
  | ok id =>
      simp only [opened, attach_without]
      cases ha : c.attach v.supervisor id with
      | mk c₁ r =>
          have h₁ : (c₁.supervisor v.supervisor).lock.Orderly := by rw [lock_attach ha]; exact h
          cases r with
          | error e => exact fail_without e h₁
          | ok u =>
              simp only [isDisposed_without, closeHeld_without]
              split
              · exact finish_without _ (by rw [lock_closeHeld]; exact h₁)
              · rfl

theorem answer_without (x : Answer α) (h : (c.supervisor v.supervisor).lock.Orderly) :
    (c.without a).answer v x = ((c.answer v x).1.without a, (c.answer v x).2) := by
  cases hs : v.stage <;> cases x <;> simp only [answer, hs]
  · exact opened_without _ h
  · rename_i r
    cases r with
    | ok x => exact finish_without _ h
    | error e => exact fail_without e h
  · exact attempt_without h

theorem begin_without {i : InvocationId} {s : SupervisorId} {t : Option Token} (h : (c.supervisor s).lock.Orderly)
    (hi : i ∉ (c.supervisor s).lock.members) (hne : a ≠ i) :
    (c.without a).begin (α := α) i s t = ((c.begin (α := α) i s t).1.without a, (c.begin (α := α) i s t).2) := by
  have hinvoke : (c.without a).invoke (α := α) i s t = c.invoke i s t := by
    simp only [invoke, isDisposed_without, supervisor_without]
  simp only [begin, hinvoke, supervisor_without, interruption?_without]
  cases hv : c.invoke (α := α) i s t with
  | ended o => rfl
  | waits v =>
      have hv : v = c.fresh i s t := by
        simp only [invoke] at hv
        split at hv
        · cases hv
        · cases hv; rfl
      subst hv
      simp only
      split
      · rw [finish_without _ h, after_without]
      · exact congrArg (fun c : Client => (c, _)) (joined_without (v := c.fresh i s t) h hi hne)

theorem opening?_without (v : Invocation) (r : Except TransportError ChannelId) :
    (c.without a).opening? (α := α) v r = c.opening? v r := by
  cases r with
  | error e => rfl
  | ok id => simp only [opening?, attach_without]

theorem attempted?_without (v : Invocation) (m : Move α) : (c.without a).attempted? v m = c.attempted? v m := by
  cases m with
  | enter | look | rest => rfl
  | opens => simp only [attempted?, openChannel_without, opening?_without]
  | answer x =>
      cases x with
      | opened r => exact opening?_without v r
      | acted | elapsed => rfl

theorem move?_without {p q : Participant α} {m : Move α}
    (h : (c.supervisor p.invocation.supervisor).lock.Orderly) (hne : p.invocation.id ≠ a)
    (hm : c.move? p m = some (c', q)) : (c.without a).move? p m = some (c'.without a, q) := by
  obtain ⟨v, ph⟩ := p
  cases ph with
  | ended o => cases m <;> simp [move?] at hm
  | waiting =>
      cases m with
      | opens | answer | rest => simp [move?] at hm
      | enter =>
          simp only [move?, interruption?_without] at hm ⊢
          split at hm
          · rename_i hg
            obtain ⟨rfl, rfl⟩ := Prod.ext_iff.1 (Option.some.inj hm)
            have hg' : v.stage = .queued ∧ ((c.interruption? (α := α) v).isSome = true ∨
                ((c.without a).supervisorOf v).lock.owner = some v.id) := by
              refine hg.imp_right (.imp_right fun ho => ?_)
              rw [supervisorOf, supervisor_without]
              exact Lock.owner_leave ho hne
            rw [if_pos hg', attempt_without h, after_without]
          · cases hm
      | look =>
          simp only [move?, interruption?_without] at hm ⊢
          split at hm
          · cases hm
          · rename_i hq
            rw [if_neg hq]
            split at hm
            · rename_i o _
              cases hm
              rw [finish_without o h, after_without]
              rfl
            · cases hm
              rfl
  | turning =>
      cases m with
      | enter | look => simp [move?] at hm
      | rest => cases hm; rfl
      | opens =>
          simp only [move?] at hm ⊢
          split at hm
          · rename_i hs
            obtain ⟨rfl, rfl⟩ := Prod.ext_iff.1 (Option.some.inj hm)
            have ho := h
            rw [← supervisor_openChannel] at ho
            rw [if_pos hs, openChannel_without, opened_without _ ho, after_without]
          · cases hm
      | answer x =>
          simp only [move?] at hm ⊢
          split at hm
          · rename_i hf
            obtain ⟨rfl, rfl⟩ := Prod.ext_iff.1 (Option.some.inj hm)
            rw [if_pos hf, answer_without x h, after_without]
          · cases hm

end Client

/-- Whether it is the beginning or a move of an invocation. -/
def Event.isOf {α : Type} (i : InvocationId) : Event α → Bool
  | .deed _ => false
  | .begin j _ _ | .move j _ => j = i

namespace Scene

variable {α : Type} {w w' : Scene α} {e : Event α} {a i : InvocationId} {p q : Participant α}

def without (w : Scene α) (a : InvocationId) : Scene α :=
  { w with
    client := w.client.without a
    participants := fun j => if j = a then none else w.participants j
    trace := w.trace.filter (fun k => !k.isOf a) }

theorem put_without {c : Client} {ms : List (Mark α)} (hi : i ≠ a) (hms : ∀ k ∈ ms, k.isOf a = false) :
    (w.without a).put (c.without a) i p ms = (w.put c i p ms).without a := by
  have hf : ms.filter (fun k => !k.isOf a) = ms := by
    rw [List.filter_eq_self]
    intro k hk
    rw [hms k hk]
    rfl
  have hp : (fun j => if j = i then some p else (w.without a).participants j) =
      fun j => if j = a then none else if j = i then some p else w.participants j := by
    funext j
    simp only [without]
    by_cases hj : j = i
    · rw [if_pos hj, if_pos hj, if_neg (hj ▸ hi)]
    · rw [if_neg hj, if_neg hj]
  simp only [put, hp]
  simp only [without, List.filter_append, hf]

theorem marks_without (c : Client) (v : Invocation) (m : Move α) (q : Participant α) (a : InvocationId) :
    marks (c.without a) v m q = marks c v m q := by
  cases m <;> simp only [marks, Client.attempted?_without]

/-- Others do the same without the invocation. -/
theorem step_without (hr : w.Reachable) (h : w.step e = some w') (he : e.isOf a = false) :
    (w.without a).step e = some (w'.without a) := by
  have hl := hr.locking
  cases hs : steps_of_step h with
  | deed hf hd =>
      simp only [step, show (w.without a).direct = w.direct from rfl, hf, Bool.false_eq_true, if_false,
        show (w.without a).client = w.client.without a from rfl, Client.perform?_without hd, Option.map_some]
      simp only [without, List.filter_append]
      rfl
  | @begin i s t c p hlt hi hb =>
      have hia : i ≠ a := of_decide_eq_false he
      have hlt' : s.number < (w.without a).client.supervisors.length := by
        rw [show (w.without a).client = w.client.without a from rfl, Client.length_without]
        exact hlt
      have hbegin := Client.begin_without (α := α) (t := t) (hl.orderly s) (hl.notMem hi s) (Ne.symm hia)
      rw [step_begin hlt hi, Option.some.injEq] at h
      rw [step_begin hlt' ((if_neg hia).trans hi), show (w.without a).client = w.client.without a from rfl,
        hbegin, ← h]
      refine congrArg some (put_without hia fun k hk => ?_)
      rcases List.mem_cons.1 hk with rfl | hk
      · exact decide_eq_false hia
      · rw [isOf_reached hk, (w.client.begun i s t).invocation]
        exact decide_eq_false hia
  | @move i m p q c hf hi hm =>
      have hia : i ≠ a := of_decide_eq_false he
      have hid := (hr.known hi).id
      have hm' := Client.move?_without (hl.orderly _) (hid ▸ hia) hm
      rw [step_move (w := w.without a) hf ((if_neg hia).trans hi) hm',
        show (w.without a).client = w.client.without a from rfl, marks_without]
      refine congrArg some (put_without hia fun k hk => ?_)
      rw [isOf_marks (Client.leads_of_move? hm).same.1 hk, hid]
      exact decide_eq_false hia

/-! ## The deleted invocation -/

def Queues (w : Scene α) (a : InvocationId) : Prop :=
  ∀ p, w.participants a = some p → p.invocation.stage = .queued

theorem queued_of_leads {c c' : Client} {v : Invocation} {m : Move α} {x : Option (Attempt α)}
    (h : c.Leads v m x c' q) (hq : q.invocation.stage = .queued) :
    v.stage = .queued ∧ (q.phase = .waiting ∧ c' = c ∨ ∃ o, q.phase = .ended o ∧ c' = c.left v) := by
  cases h with
  | looked hm hs => exact absurd hq hs
  | rested => exact ⟨hq, .inl ⟨rfl, rfl⟩⟩
  | givenUp => exact ⟨hq, .inr ⟨_, rfl, rfl⟩⟩
  | unheld | discards | reuses | attaches | suppresses => cases hq
  | orphans hs | succeeds hs => rw [show v.stage = _ from hq] at hs; cases hs
  | throws hf => exact absurd hq hf.ne_queued

theorem Queues.before (h : w'.Queues a) (hs : w.Steps e w') : w.Queues a := by
  intro p hp
  cases hs with
  | deed => exact h p hp
  | @begin j s t c q hl hj hb =>
      have hne : a ≠ j := by rintro rfl; rw [hp] at hj; cases hj
      exact h p ((if_neg hne).trans hp)
  | @move j m p' q c hf hj hm =>
      by_cases hja : a = j
      · subst hja
        rw [hp] at hj
        cases hj
        exact (queued_of_leads (Client.leads_of_move? hm) (h q (if_pos rfl))).1
      · exact h p ((if_neg hja).trans hp)

theorem Queues.before_run {es : List (Event α)} (h : w'.Queues a) (hrun : w.run es = some w') : w.Queues a := by
  induction es generalizing w with
  | nil => cases hrun; exact h
  | cons e es ih =>
      obtain ⟨w₁, hs, hrun⟩ := run_cons_eq_some.1 hrun
      exact (ih hrun).before (steps_of_step hs)

theorem put_without_self {c : Client} {ms : List (Mark α)} (hc : c.without a = w.client.without a)
    (hms : ∀ k ∈ ms, k.isOf a = true) : (w.put c a p ms).without a = w.without a := by
  have hf : ms.filter (fun k => !k.isOf a) = [] := by
    rw [List.filter_eq_nil_iff]
    intro k hk
    rw [hms k hk]
    simp
  have hp : (fun j => if j = a then none else if j = a then some p else w.participants j) =
      fun j => if j = a then none else w.participants j := by
    funext j
    by_cases hj : j = a
    · rw [if_pos hj, if_pos hj]
    · rw [if_neg hj, if_neg hj, if_neg hj]
  simp only [put, without, hc, hp, List.filter_append, hf, List.append_nil]

/-- Before the lock the invocation itself does nothing but take a place in the queue and leave it. -/
theorem step_without_self (hr : w.Reachable) (h : w.Steps e w') (he : e.isOf a = true) (hq : w'.Queues a) :
    w'.without a = w.without a := by
  have hl := hr.locking
  cases h with
  | deed => cases he
  | @begin i s t c p hlt hi hb =>
      obtain rfl : i = a := of_decide_eq_true he
      refine put_without_self ?_ fun k hk => ?_
      · cases hb with
        | late => rfl
        | cancelled => exact Client.left_without_self (v := w.client.fresh i s t) (hl.orderly s)
        | joins => exact Client.joined_without_self (v := w.client.fresh i s t) (hl.orderly s) (hl.notMem hi s)
      · rcases List.mem_cons.1 hk with rfl | hk
        · exact decide_eq_true rfl
        · rw [isOf_reached hk, hb.invocation]
          exact decide_eq_true rfl
  | @move i m p q c hf hi hm =>
      obtain rfl : i = a := of_decide_eq_true he
      have hid := (hr.known hi).id
      have hm := Client.leads_of_move? hm
      refine put_without_self ?_ fun k hk => ?_
      · rcases (queued_of_leads hm (hq q (if_pos rfl))).2 with ⟨-, rfl⟩ | ⟨o, -, rfl⟩
        · rfl
        · rw [← hid]
          exact Client.left_without_self (hl.orderly _)
      · rw [isOf_marks hm.same.1 hk, hid]
        exact decide_eq_true rfl

/-- An invocation that never came past the queue can be deleted from a run. -/
theorem run_without {es : List (Event α)} (hr : w.Reachable) (hrun : w.run es = some w') (hq : w'.Queues a) :
    (w.without a).run (es.filter (fun e => !e.isOf a)) = some (w'.without a) := by
  induction es generalizing w with
  | nil => cases hrun; rfl
  | cons e es ih =>
      obtain ⟨w₁, hs, hrun⟩ := run_cons_eq_some.1 hrun
      have ih := ih (hr.step hs) hrun
      cases he : e.isOf a with
      | true =>
          -- Its own event: it is before the lock now because it is so at the end of the run.
          rw [List.filter_cons_of_neg (by rw [he]; simp),
            ← step_without_self hr (steps_of_step hs) he (hq.before_run hrun)]
          exact ih
      | false =>
          rw [List.filter_cons_of_pos (by rw [he]; rfl)]
          exact run_cons_eq_some.2 ⟨_, step_without hr hs he, ih⟩

theorem start_without (recoverable direct : Bool) (a : InvocationId) :
    (start (α := α) recoverable direct).without a = start recoverable direct := by
  have : (fun j : InvocationId => if j = a then none else (none : Option (Participant α))) = fun _ => none := by
    funext j
    split <;> rfl
  simp only [without, start, this]
  rfl

end Scene

end BrokerClient
