import BrokerClient.Proofs.Scene.Lifecycle
import BrokerClient.Proofs.Supervisor.Verdict

/-!
# Connections that cannot recover

A channel of a connection that cannot recover is never held. It is closed as soon as it is opened, and the invocation
that needed it fails for good, under all options and after any failed openings (`refused_for_good`).
-/
namespace BrokerClient

/-- Whether the deed is done to the channel. -/
def Deed.touches (id : ChannelId) : Deed → Bool
  | .confirmSelect ch | .signal ch _ | .close ch | .listen ch | .unlisten ch _ | .listenRecovery ch
  | .unlistenRecovery ch _ => ch = id
  | _ => false

def Mark.touches {α : Type} (id : ChannelId) : Mark α → Bool
  | .deed d => d.touches id
  | _ => false

/-- A channel that was opened and could not be held, with the invocation that needed it. -/
def Mark.refusal? {α : Type} : Mark α → Option (InvocationId × TransportError)
  | .attempted i (.unattached e) => some (i, e)
  | _ => none

/-- Where nothing was ever attached there is nobody to hear. -/
theorem History.events_of_not_attached {h : History} (hn : ∀ s, ¬ h.Attached s) : (Ledger.ofHistory h).events = [] := by
  have hquiet (r : Ledger) (hr : ∀ id, (r.standing id).holders = []) (he : r.events = []) (h : History)
      (hn : ∀ s, ¬ h.Attached s) : (r.enterAll h).events = [] := by
    induction h generalizing r with
    | nil => exact he
    | cons x h ih =>
        obtain ⟨id, a⟩ := x
        refine ih (r.enter (id, a)) (fun j => ?_) ?_ fun s ⟨j, b, hx⟩ => hn s ⟨j, b, List.mem_cons_of_mem _ hx⟩
        · simp only [Ledger.enter]
          split
          · cases a with
            | held s b => exact absurd ⟨id, b, List.mem_cons_self⟩ (hn s)
            | released s => simp [Standing.after, hr]
            | refused | closed => exact hr id
            | raised g => cases g <;> exact hr id
          · exact hr j
        · cases a <;> simp [Ledger.enter, he, Standing.heard, Standing.told, hr]
  exact hquiet {} (fun _ => rfl) rfl h hn

namespace Client

variable {α : Type} {c c' : Client} {s : SupervisorId} {id : ChannelId} {v : Invocation} {m : Move α} {q : Participant α}

/-! ## Connections as they were made -/

theorem recoverable_onChannel (c : Client) (id : ChannelId)
    (f : Channel Listener → Channel Listener × Deliveries Listener) :
    (c.onChannel id f).connection.recoverable = c.connection.recoverable := by
  simp only [onChannel, Connection.deliver, Connection.modify]
  split <;> rfl

theorem recoverable_closeHeld (c : Client) (s : SupervisorId) :
    (c.closeHeld s).connection.recoverable = c.connection.recoverable := by
  unfold closeHeld
  split
  · rfl
  · simp only [connection_record, recoverable_onChannel, close, connection_modify]

theorem recoverable_attach {r : Except TransportError Unit} (ha : c.attach s id = (c', r)) :
    c'.connection.recoverable = c.connection.recoverable := by
  rcases attach_cases c s id with ⟨e, he⟩ | ⟨ch, c₁, -, -, -, hk, he⟩
  · rw [he] at ha
    cases ha
    exact recoverable_onChannel ..
  · rw [he] at ha
    cases ha
    have hc₁ : c₁.connection.recoverable = c.connection.recoverable := by
      split at hk
      · obtain ⟨ch', -, -, rfl⟩ := confirmSelect_ok hk
        rfl
      · cases hk
        rfl
    rw [← hc₁]
    simp only [hold, connection_record, connection_modify, Connection.modify]
    split <;> rfl

theorem recoverable_composes :
    Composes (fun _ _ => True) (fun c _ c' => c'.connection.recoverable = c.connection.recoverable) where
  refl _ := rfl
  trans hf hf' := hf'.trans hf
  left _ _ := rfl
  record _ _ _ := rfl
  openChannel c := by rcases openChannel_cases c with ⟨e, rest, -, h⟩ | ⟨id, -, h⟩ <;> rw [h]
  release := recoverable_closeHeld
  attach _ _ _ := recoverable_attach

/-- Nothing happens to a connection, but to the channels that are touched. -/
structure Undisturbed (touched : ChannelId → Bool) (c c' : Client) : Prop where
  recoverable : c'.connection.recoverable = c.connection.recoverable
  ids : c'.connection.channels.map Channel.id = c.connection.channels.map Channel.id
  channel : ∀ id, touched id = false → c'.connection.channel? id = c.connection.channel? id

namespace Undisturbed

variable {touched : ChannelId → Bool}

theorem of_eq (hr : c'.connection.recoverable = c.connection.recoverable)
    (hc : c'.connection.channels = c.connection.channels) : Undisturbed touched c c' where
  recoverable := hr
  ids := by rw [hc]
  channel id _ := by simp only [Connection.channel?, hc]

theorem onChannel {f : Channel Listener → Channel Listener × Deliveries Listener} (hid : ∀ ch, (f ch).1.id = ch.id)
    (ht : touched id = true) : Undisturbed touched c (c.onChannel id f) where
  recoverable := recoverable_onChannel ..
  ids := ids_onChannel ..
  channel j hj := by
    rw [channel?_onChannel c id j hid, if_neg]
    rintro rfl
    rw [ht] at hj
    cases hj

theorem dispose (hn : (c.supervisor s).held = none) : Undisturbed touched c (c.dispose s) := by
  unfold Client.dispose
  split
  · exact of_eq rfl rfl
  · rw [closeHeld_of_none ((held_modify_disposed c s s).1.trans hn)]
    exact of_eq rfl rfl

theorem perform? {d : Deed} (h : c.perform? d = some c') (hn : ∀ s, (c.supervisor s).held = none)
    (ho : d ≠ .openChannel) : Undisturbed (fun id => d.touches id) c c' := by
  have htouches {ch : ChannelId} : decide (ch = ch) = true := decide_eq_true rfl
  cases d with
  | supervise | failNext => cases h; exact of_eq rfl rfl
  | cancel t =>
      cases h
      exact of_eq (by unfold Client.cancel; split <;> rfl) (by unfold Client.cancel; split <;> rfl)
  | dispose s =>
      simp only [Client.perform?] at h
      split at h
      · cases h; exact dispose (hn s)
      · cases h
  | openChannel => exact absurd rfl ho
  | confirmSelect ch =>
      simp only [Client.perform?] at h
      cases hk : c.confirmSelect ch with
      | error e => rw [hk] at h; cases h
      | ok c₁ =>
          rw [hk] at h
          cases h
          obtain ⟨ch', hc', -, heq⟩ := confirmSelect_ok hk
          refine ⟨by rw [heq]; rfl, by rw [heq]; exact Connection.channels_put_ids .., fun j hj => ?_⟩
          rw [channel?_confirmSelect hk hc', if_neg (Ne.symm (of_decide_eq_false hj))]
  | signal ch g =>
      simp only [Client.perform?] at h
      split at h
      · cases h
        exact onChannel (fun ch => Channel.id_raise ch g) htouches
      · cases h
  | close ch =>
      simp only [Client.perform?] at h
      split at h
      · cases h
        exact onChannel (fun _ => rfl) htouches
      · cases h
  | listen | listenRecovery =>
      cases h
      exact onChannel (fun _ => rfl) htouches
  | unlisten | unlistenRecovery =>
      simp only [Client.perform?] at h
      split at h
      · cases h
      · cases h
        exact onChannel (fun _ => rfl) htouches

end Undisturbed

theorem Begun.connection {p : Participant α} (h : Begun c v c' p) : c'.connection = c.connection := by
  cases h <;> rfl

/-! ## Moves -/

theorem attach_of_unrecoverable {ch : Channel Listener} (hc : c.connection.channel? id = some ch)
    (hr : ch.recoverable = false) (s : SupervisorId) : c.attach s id = (c.close id, .error (.refusal id)) := by
  simp only [attach, hc, Option.any_some, hr]
  rfl

theorem verdict_refusal (c : Client) (v : Invocation) (id : ChannelId) : c.verdict v (.refusal id) = .throw :=
  Classifier.classify_refusal ..

/-- A channel that was opened and refused. -/
def refused (id : ChannelId) : Channel Listener :=
  { id, recoverable := false, isOpen := false, closeCalls := 1 }

theorem ids_openChannel (h : c.openChannel.2 = .ok id) :
    c.openChannel.1.connection.channels.map Channel.id = c.connection.channels.map Channel.id ++ [id] := by
  rcases openChannel_cases c with ⟨e, rest, -, ho⟩ | ⟨new, -, ho⟩
  · rw [ho] at h
    cases h
  · rw [ho] at h ⊢
    cases h
    exact List.map_append

/-- What a move comes to where nothing is held and no new channel can recover: no channel is opened, or one is and the
invocation fails with it. -/
inductive Bars (c : Client) (v : Invocation) (m : Move α) (a : Option (Attempt α)) (c' : Client) (q : Participant α) :
    Prop where
  | passes (hc : c'.connection.channels = c.connection.channels) (ha : ∀ x, a = some x → ∃ e, x = .unopened e)
      (hq : ∀ id, q.invocation.stage ≠ .acting id)
  | refuses {id : ChannelId} (hm : m = .opens) (ho : c.openChannel.2 = .ok id)
      (ha : a = some (.unattached (.refusal id)))
      (hc : c'.connection.channels = (c.openChannel.1.close id).connection.channels)
      (hq : q = ⟨v, .ended (.failed (.refusal id))⟩)

theorem Opens.eq_opens {r : Except TransportError ChannelId} (h : Opens c m c' r)
    (hm : ∀ r, m ≠ .answer (.opened r)) : m = .opens := by
  cases h with
  | own => rfl
  | foreign r => exact absurd rfl (hm r)

/-- An attempt fails for want of a channel. -/
theorem Fails.bars {a : Attempt α} {c₁ : Client} {e : TransportError} (h : Fails c v m a c₁ e)
    (hown : ∀ r, m ≠ .answer (.opened r)) (hrec : c.connection.recoverable = false)
    (hnum : ∀ j ∈ c.connection.channels.map Channel.id, j.number ≤ c.connection.channels.length)
    (hidle : ∀ id, v.stage ≠ .acting id) :
    (c₁.connection.channels = c.connection.channels ∧ a = .unopened e) ∨
      ∃ id, m = .opens ∧ c.openChannel.2 = .ok id ∧ a = .unattached (.refusal id) ∧ e = .refusal id ∧
        c₁ = c.openChannel.1.close id := by
  cases h with
  | unopened hs ho =>
      left
      refine ⟨?_, rfl⟩
      have heq := ho.own_of hown
      rcases openChannel_cases c with ⟨e', rest, -, h⟩ | ⟨id, -, h⟩
      · rw [h] at heq
        cases heq
        rfl
      · rw [h] at heq
        cases heq
  | @unattached m c₀ c₁ e id hs ho ha =>
      right
      have heq := ho.own_of hown
      rw [attach_of_unrecoverable (ho.channel? hown hnum) hrec] at ha
      cases ha
      exact ⟨id, ho.eq_opens hown, by rw [heq], rfl, rfl, by rw [heq]⟩
  | acted hs => exact absurd hs (hidle _)

theorem not_attaching (hown : ∀ r, m ≠ .answer (.opened r)) (hrec : c.connection.recoverable = false)
    (hnum : ∀ j ∈ c.connection.channels.map Channel.id, j.number ≤ c.connection.channels.length) :
    ¬ c.Attaching v m id := by
  rintro ⟨c₀, c₁, ho, ha⟩
  rw [attach_of_unrecoverable (ho.channel? hown hnum) hrec] at ha
  cases ha

theorem Leads.bars {a : Option (Attempt α)} (h : Leads c v m a c' q) (hown : ∀ r, m ≠ .answer (.opened r))
    (hrec : c.connection.recoverable = false)
    (hnum : ∀ j ∈ c.connection.channels.map Channel.id, j.number ≤ c.connection.channels.length)
    (hn : (c.supervisor v.supervisor).held = none) (hidle : ∀ id, v.stage ≠ .acting id) : Bars c v m a c' q := by
  have hfailed {x : Attempt α} {c₁ : Client} {e : TransportError} (hf : Fails c v m x c₁ e) :
      (c₁.failed v e).connection.channels = c₁.connection.channels := by
    obtain ⟨r, hr⟩ := failed_of_none (c := c₁) (v := v) (by rw [hf.supervisor]; exact hn) e
    rw [hr, connection_record]
  cases h with
  | looked | rested => exact .passes rfl (by simp) hidle
  | givenUp => exact .passes rfl (by simp) hidle
  | unheld => exact .passes rfl (by simp) (by simp)
  | discards _ _ hh | reuses _ _ hh => rw [hn] at hh; cases hh
  | attaches _ ho ha | orphans _ ho ha => exact absurd ⟨_, _, ho, ha⟩ (not_attaching hown hrec hnum)
  | throws hf =>
      rcases hf.bars hown hrec hnum hidle with ⟨hc, rfl⟩ | ⟨id, hm, hid, rfl, rfl, rfl⟩
      · refine .passes ?_ (by simp) hidle
        rw [left, connection_modify, hfailed hf, hc]
      · refine .refuses hm hid rfl ?_ rfl
        rw [left, connection_modify, hfailed hf]
  | suppresses hf hr =>
      rcases hf.bars hown hrec hnum hidle with ⟨hc, rfl⟩ | ⟨id, -, -, -, rfl, -⟩
      · exact .passes ((hfailed hf).trans hc) (by simp) (by simp)
      · rw [verdict_refusal] at hr
        cases hr
  | succeeds hs => exact absurd hs (hidle _)

end Client

namespace Scene

variable {α : Type} {w w' : Scene α} {e : Event α} {i : InvocationId} {p : Participant α} {id : ChannelId}

/-! ## Steps -/

/-- Who waits for an action has called it. -/
theorem Reachable.called_of_acting (h : w.Reachable) (hp : w.participants i = some p)
    (hs : p.invocation.stage = .acting id) : .called i id ∈ w.trace := by
  have := h.participant (P := fun w p => ∀ id, p.invocation.stage = .acting id →
    .called p.invocation.id id ∈ w.trace) ?_ ?_ ?_ hp id hs
  · rwa [(h.known hp).id] at this
  · intro w i s t c p _ _ _ hb id hs
    rw [hb.invocation] at hs
    cases hs
  · intro w i p m q c _ _ _ hm ih id hs
    have hold : ∀ k ∈ w.trace, k ∈ (w.put c i q (marks w.client p.invocation m q)).trace :=
      fun k => List.mem_append_left _
    have hnew (hrest : m ≠ .rest) : ∀ k ∈ q.reached, k ∈ (w.put c i q (marks w.client p.invocation m q)).trace := by
      intro k hk
      simp only [put, marks_of_ne_rest hrest]
      exact List.mem_append_right _ (List.mem_append_right _ hk)
    generalize w.client.attempted? p.invocation m = a at hm
    cases hm with
    | looked | rested | givenUp | orphans | throws | succeeds => exact hold _ (ih id hs)
    | unheld | discards | suppresses => cases hs
    | reuses hb => cases hs; exact hnew hb.ne_rest _ (List.mem_singleton.2 rfl)
    | attaches _ ho => cases hs; exact hnew ho.ne_rest _ (List.mem_singleton.2 rfl)
  · intro w w' e i p _ hs _ _ ih id hstage
    obtain ⟨ms, ht⟩ := hs.trace
    rw [ht]
    exact List.mem_append_left _ (ih id hstage)

/-- What a step comes to on a connection that cannot recover: no channel is opened and no action is called, or a channel
is opened and closed at once, and the invocation that needed it fails. -/
inductive Refuses (w : Scene α) (e : Event α) (w' : Scene α) : Prop where
  | passes {ms : List (Mark α)} (ht : w'.trace = w.trace ++ ms) (hcalled : ∀ i id, .called i id ∉ ms)
      (hattempted : ∀ i a, .attempted i a ∈ ms → ∃ f, a = .unopened f)
      (hids : w'.client.connection.channels.map Channel.id = w.client.connection.channels.map Channel.id)
      (hch : ∀ id, (∀ k ∈ ms, k.touches id = false) →
        w'.client.connection.channel? id = w.client.connection.channel? id)
  | refuses {i : InvocationId} {id : ChannelId} {q : Participant α} (he : e = .move i .opens)
      (ht : w'.trace = w.trace ++ [.attempted i (.unattached (.refusal id)), .ended i (.failed (.refusal id))])
      (hids : w'.client.connection.channels.map Channel.id = w.client.connection.channels.map Channel.id ++ [id])
      (hch : ∀ j, w'.client.connection.channel? j =
        if j = id then some (Client.refused id) else w.client.connection.channel? j)
      (hp : w'.participants i = some q) (hq : q.phase = .ended (.failed (.refusal id)))

/-- Nothing was ever attached to a connection that cannot recover. -/
structure Barren (w : Scene α) : Prop where
  recoverable : w.client.connection.recoverable = false
  unheld : ∀ s, (w.client.supervisor s).everHeld = false
  uncalled : ∀ i id, .called i id ∉ w.trace

theorem Barren.held (h : w.Barren) (hr : w.Reachable) (s : SupervisorId) : (w.client.supervisor s).held = none := by
  cases hh : (w.client.supervisor s).held with
  | none => rfl
  | some k =>
      have hever := hr.everHeld_of_held (s := s) (by rw [hh]; rfl)
      rw [h.unheld s] at hever
      cases hever

theorem called_mem_marks {c : Client} {v : Invocation} {m : Move α} {q : Participant α}
    (hk : .called i id ∈ marks c v m q) : .called i id ∈ q.reached := by
  unfold marks at hk
  split at hk
  · cases hk
  · refine (List.mem_append.1 hk).resolve_left fun hk => ?_
    obtain ⟨a, -, ha⟩ := Option.map_eq_some_iff.1 (Option.mem_toList.1 hk)
    cases ha

theorem called_mem_reached {q : Participant α} (hk : .called i id ∈ q.reached) : q.invocation.stage = .acting id := by
  unfold Participant.reached at hk
  split at hk <;> simp at hk
  rename_i ch _ hs
  rw [hs, hk.2]

theorem Barren.refuses_of_step (hb : w.Barren) (hr : w.Reachable) (hd : w.direct = true) (hs : w.step e = some w') :
    w.Refuses e w' := by
  cases steps_of_step hs with
  | @deed d c hf hp =>
      have hu := Client.Undisturbed.perform? hp (hb.held hr) (ne_openChannel_of_direct hd hf)
      refine .passes rfl (by simp) (by simp) hu.ids fun id hid => hu.channel id (hid (.deed d) (List.mem_singleton.2 rfl))
  | @begin i s t c p hl hi hbegun =>
      have hc := hbegun.connection
      refine .passes rfl ?_ ?_ (by rw [put, hc]) fun id _ => by rw [put, hc]
      · cases hbegun <;> simp [Participant.reached, Client.fresh]
      · cases hbegun <;> simp [Participant.reached, Client.fresh]
  | @move i m p q c hf hi hm =>
      have hown := ne_opened_of_direct hd hf
      have hnum := (hr.custody hd).numbered
      have hidle : ∀ id, p.invocation.stage ≠ .acting id := fun id hid => hb.uncalled i id (hr.called_of_acting hi hid)
      have hl := Client.leads_of_move? hm
      cases hl.bars hown hb.recoverable hnum (hb.held hr _) hidle with
      | passes hc ha hq =>
          refine .passes rfl (fun j id hk => ?_) (fun j a hk => ha a (attempted_mem_marks hk)) (by rw [put, hc])
            fun id _ => by simp only [put, Connection.channel?, hc]
          exact hq id (called_mem_reached (called_mem_marks hk))
      | @refuses id hm ho ha hc hq =>
          subst hm hq
          have hnew := Client.channel?_openChannel hnum ho
          refine .refuses rfl ?_ ?_ (fun j => ?_) (if_pos rfl) rfl
          · simp only [put, marks_of_ne_rest (m := .opens) (by simp), ha, Participant.reached, (hr.known hi).id]
            rfl
          · rw [put, hc, Client.close, Client.ids_onChannel, Client.ids_openChannel ho]
          · have hclosed : c.connection.channel? j = (w.client.openChannel.1.close id).connection.channel? j := by
              simp only [Connection.channel?, hc]
            simp only [put, hclosed, Client.channel?_close, hnew.2, hb.recoverable, if_true]
            split <;> rfl

theorem Barren.step (hb : w.Barren) (hr : w.Reachable) (hd : w.direct = true) (hs : w.step e = some w') :
    w'.Barren := by
  have hrefuses := hb.refuses_of_step hr hd hs
  refine ⟨?recoverable, fun s => ?unheld, fun j id => ?uncalled⟩
  case uncalled =>
    cases hrefuses with
    | passes ht hcalled => rw [ht]; simp [hb.uncalled, hcalled]
    | refuses _ ht => rw [ht]; simp [hb.uncalled]
  case recoverable =>
    refine Eq.trans ?_ hb.recoverable
    cases steps_of_step hs with
    | deed hf hp => exact (Client.Undisturbed.perform? hp (hb.held hr) (ne_openChannel_of_direct hd hf)).recoverable
    | begin hl hi hbegun => exact congrArg _ hbegun.connection
    | move hf hi hm =>
        exact Client.recoverable_composes.move? hm (hr.known hi).supervisor
          (hr.held_of_opening hi (Client.phase_of_move? hm)) fun _ _ _ => trivial
  case unheld =>
    refine Eq.trans ?_ (hb.unheld s)
    cases steps_of_step hs with
    | deed hf hp => exact (Client.sinks_perform? hp s).everHeld
    | begin hl hi hbegun => exact (hbegun.sinks s).everHeld
    | move hf hi hm =>
        rcases (Client.leads_of_move? hm).sinks_or_attaches (hr.known hi).supervisor s with h | ⟨-, id, h, -⟩
        · exact h.everHeld
        · exact absurd h (Client.not_attaching (ne_opened_of_direct hd hf) hb.recoverable (hr.custody hd).numbered)

theorem Barren.run {es : List (Event α)} (hb : w.Barren) (hr : w.Reachable) (hd : w.direct = true)
    (hrun : w.run es = some w') : w'.Barren := by
  induction es generalizing w with
  | nil => cases hrun; exact hb
  | cons e es ih =>
      obtain ⟨w₁, hs, hrun⟩ := run_cons_eq_some.1 hrun
      exact ih (hb.step hr hd hs) (hr.step hs) ((steps_of_step hs).direct.trans hd) hrun

/-! ## Runs -/

/-- The channels that were opened and could not be held, with the invocations that needed them. -/
def refusals (w : Scene α) : List (InvocationId × TransportError) :=
  w.trace.filterMap Mark.refusal?

/-- Each channel was refused to one invocation, which failed with it and got no other one. It is as the refusal left it
unless it was touched since. -/
structure Tally (w : Scene α) : Prop where
  channels : w.refusals.map Prod.snd = (w.client.connection.channels.map Channel.id).map .refusal
  once : (w.refusals.map Prod.fst).Nodup
  ended : ∀ i f, (i, f) ∈ w.refusals → ∃ p, w.participants i = some p ∧ p.phase = .ended (.failed f)
  attempts : ∀ i a, .attempted i a ∈ w.trace → (∃ f, a = .unopened f) ∨ ∃ id, a = .unattached (.refusal id)
  untouched : ∀ id ch, w.client.connection.channel? id = some ch →
    (∀ k ∈ w.trace, k.touches id = false) → ch = Client.refused id

theorem refusals_eq_nil {ms : List (Mark α)} (h : ∀ i a, .attempted i a ∈ ms → ∃ f, a = .unopened f) :
    ms.filterMap Mark.refusal? = [] := by
  rw [List.filterMap_eq_nil_iff]
  intro k hk
  cases k with
  | attempted i a =>
      obtain ⟨f, rfl⟩ := h i a hk
      rfl
  | deed | began | opening | called | ended => rfl

namespace Tally

theorem refusals_of_passes {ms : List (Mark α)} (ht : w'.trace = w.trace ++ ms)
    (hattempted : ∀ i a, .attempted i a ∈ ms → ∃ f, a = .unopened f) : w'.refusals = w.refusals := by
  rw [refusals, ht, List.filterMap_append, refusals_eq_nil hattempted, List.append_nil, refusals]

theorem ended_of_steps (h : w.Tally) (hs : w.Steps e w') {f : TransportError} (hin : (i, f) ∈ w.refusals) :
    ∃ p, w'.participants i = some p ∧ p.phase = .ended (.failed f) := by
  obtain ⟨p, hp, hended⟩ := h.ended i f hin
  exact ⟨p, hs.unmoved hp (hs.unmoved_of_ended hp hended), hended⟩

/-- Who moves has not failed yet. -/
theorem not_refused (h : w.Tally) {m : Move α} (hs : w.Steps (.move i m) w') : i ∉ w.refusals.map Prod.fst := by
  intro hin
  obtain ⟨⟨j, f⟩, hx, rfl⟩ := List.mem_map.1 hin
  obtain ⟨p, hp, hended⟩ := h.ended j f hx
  exact hs.unmoved_of_ended hp hended m rfl

theorem step (h : w.Tally) (hs : w.Steps e w') (hrefuses : w.Refuses e w') : w'.Tally := by
  cases hrefuses with
  | passes ht hcalled hattempted hids hch =>
      have hsame := refusals_of_passes ht hattempted
      refine ⟨by rw [hsame, hids]; exact h.channels, by rw [hsame]; exact h.once,
        fun i f hin => h.ended_of_steps hs (hsame ▸ hin), fun i a hk => ?attempts, fun id ch hc hn => ?untouched⟩
      case attempts =>
        rw [ht] at hk
        exact (List.mem_append.1 hk).elim (h.attempts i a) fun hk => .inl (hattempted i a hk)
      case untouched =>
        rw [ht] at hn
        rw [hch id fun k hk => hn k (List.mem_append_right _ hk)] at hc
        exact h.untouched id ch hc fun k hk => hn k (List.mem_append_left _ hk)
  | @refuses i id q he ht hids hch hp hq =>
      have hmore : w'.refusals = w.refusals ++ [(i, .refusal id)] := by
        rw [refusals, ht, List.filterMap_append]
        rfl
      refine ⟨?channels, ?once, fun j f hin => ?ended, fun j a hk => ?attempts, fun j ch hc hn => ?untouched⟩
      case channels => rw [hmore, hids, List.map_append, List.map_append, h.channels]; rfl
      case once =>
        subst he
        rw [hmore, List.map_append]
        refine List.nodup_append.2 ⟨h.once, by simp, fun a ha b hb => ?_⟩
        rw [List.mem_singleton.1 hb]
        rintro rfl
        exact h.not_refused hs ha
      case ended =>
        rw [hmore] at hin
        rcases List.mem_append.1 hin with hin | hin
        · exact h.ended_of_steps hs hin
        · cases List.mem_singleton.1 hin
          exact ⟨q, hp, hq⟩
      case attempts =>
        rw [ht] at hk
        rcases List.mem_append.1 hk with hk | hk
        · exact h.attempts j a hk
        · have : j = i ∧ a = .unattached (.refusal id) := by simpa using hk
          exact .inr ⟨id, this.2⟩
      case untouched =>
        rw [hch] at hc
        split at hc
        · rename_i hj
          cases hc
          rw [hj]
        · refine h.untouched j ch hc fun k hk => hn k ?_
          rw [ht]
          exact List.mem_append_left _ hk

theorem run {es : List (Event α)} (h : w.Tally) (hb : w.Barren) (hr : w.Reachable) (hd : w.direct = true)
    (hrun : w.run es = some w') : w'.Tally := by
  induction es generalizing w with
  | nil => cases hrun; exact h
  | cons e es ih =>
      obtain ⟨w₁, hs, hrun⟩ := run_cons_eq_some.1 hrun
      have hsteps := steps_of_step hs
      exact ih (h.step hsteps (hb.refuses_of_step hr hd hs)) (hb.step hr hd hs) (hr.step hs) (hsteps.direct.trans hd) hrun

end Tally

/-- Supervisors never get a channel: no action is called, nothing is made known, and what is opened is closed by them
once and never listened to. -/
structure Fruitless (w : Scene α) : Prop where
  uncalled : ∀ i id, .called i id ∉ w.trace
  silent : w.client.events = []
  disposed : ∀ s, .deed (.dispose s) ∈ w.trace → (w.client.supervisor s).state = .disposed
  undisposed : ∀ s, .deed (.dispose s) ∉ w.trace → (w.client.supervisor s).state = .uninitialized
  closed : ∀ id ch, w.client.connection.channel? id = some ch → Client.forwarders ch.listeners = [] ∧
    Client.forwarders ch.recoveryListeners = [] ∧ ch.closeCalls = w.visits id + 1
  tally : w.Tally

theorem barren_start : (start (α := α) false true).Barren :=
  ⟨rfl, fun _ => rfl, by simp [start]⟩

theorem barren_of_run {es : List (Event α)} (hrun : (start false true).run es = some w) : w.Barren :=
  barren_start.run (.start false true) rfl hrun

theorem fruitless_of_run {es : List (Event α)} (hrun : (start false true).run es = some w) : w.Fruitless := by
  have hr₀ := Reachable.start (α := α) false true
  have hr := hr₀.run hrun
  have hb := barren_of_run hrun
  have hlives := lives_of_run hrun
  have hnever : ∀ s, ¬ ((start (α := α) false true).history es).Attached s := by
    intro s hs
    have hever := (remembers_of_run hr₀ hrun s).2 (.inr hs)
    rw [hb.unheld s] at hever
    cases hever
  refine ⟨hb.uncalled, ?silent, fun s => (hlives s).disposed.2, fun s hs => (hlives s).uninitialized.2 ⟨hs, hnever s⟩,
    fun id ch hc => ?closed, ?tally⟩
  case silent =>
    rw [(follows_of_run hr₀ hrun _ (.start false)).events]
    exact History.events_of_not_attached hnever
  case closed =>
    have hst := (hr.custody (direct_of_run hrun)).free id ch hc fun s k hk => by
      rw [hb.held hr s] at hk
      cases hk
    exact ⟨hst.listeners, hst.recoveryListeners, hst.closes⟩
  case tally =>
    have ht₀ : (start (α := α) false true).Tally := by
      refine ⟨rfl, List.nodup_nil, ?_, ?_, ?_⟩
      · intro i f hin; cases hin
      · intro i a hk; cases hk
      · intro id ch hc; cases hc
    exact ht₀.run barren_start hr₀ rfl hrun

theorem attempted?_opens {c : Client} {v : Invocation} (hrec : c.connection.recoverable = false)
    (hnum : ∀ j ∈ c.connection.channels.map Channel.id, j.number ≤ c.connection.channels.length)
    (ho : c.openChannel.2 = .ok id) : c.attempted? (α := α) v .opens = some (.unattached (.refusal id)) := by
  have hnew := (Client.channel?_openChannel hnum ho).2 id
  rw [if_pos rfl, hrec] at hnew
  simp only [Client.attempted?, ho, Client.opening?, Client.attach_of_unrecoverable hnew rfl]

/-- Whoever has its turn to open a channel opens one, unless a failure is laid up, and fails with it. -/
theorem Barren.opens (hb : w.Barren) (hr : w.Reachable) (hd : w.direct = true) (hp : w.participants i = some p)
    (ht : p.phase = .turning) (hs : p.invocation.stage = .opening) (hf : w.client.connection.failures = []) :
    ∃ w' id, w.step (.move i .opens) = some w' ∧
      w'.client.connection.channels.map Channel.id = w.client.connection.channels.map Channel.id ++ [id] ∧
      w'.trace = w.trace ++ [.attempted i (.unattached (.refusal id)), .ended i (.failed (.refusal id))] := by
  obtain ⟨id, ho⟩ : ∃ id, w.client.openChannel.2 = .ok id := by
    rcases Client.openChannel_cases w.client with ⟨e, rest, h, -⟩ | ⟨id, -, h⟩
    · rw [hf] at h
      cases h
    · exact ⟨id, by rw [h]⟩
  have hmove : ∃ c q, w.client.move? p .opens = some (c, q) := by
    simp only [Client.move?, ht, hs, if_true, Option.some.injEq]
    exact ⟨_, _, rfl⟩
  obtain ⟨c, q, hmove⟩ := hmove
  have hstep := step_move (Bool.and_false _) hp hmove
  cases hb.refuses_of_step hr hd hstep with
  | refuses he ht hids => cases he; exact ⟨_, _, hstep, hids, ht⟩
  | @passes ms ht _ hattempted =>
      obtain rfl := List.append_cancel_left ht
      have hmark := attempted?_opens (α := α) (v := p.invocation) hb.recoverable (hr.custody hd).numbered ho
      obtain ⟨f, hf⟩ := hattempted p.invocation.id (.unattached (.refusal id)) (by
        rw [marks_of_ne_rest (by simp), hmark]
        exact List.mem_append_left _ (List.mem_singleton.2 rfl))
      cases hf

/-- On a connection that cannot recover no supervisor gets a channel, whatever its options are and whatever openings
fail: each step that opens a channel refuses it for good to the invocation that needed it. -/
theorem refused_for_good {es : List (Event α)} (hrun : (start false true).run es = some w) :
    w.Fruitless ∧ (∀ e w', w.step e = some w' → w.Refuses e w') ∧
      ∀ i p, w.participants i = some p → p.phase = .turning → p.invocation.stage = .opening →
        w.client.connection.failures = [] → ∃ w' id, w.step (.move i .opens) = some w' ∧
          w'.client.connection.channels.map Channel.id = w.client.connection.channels.map Channel.id ++ [id] ∧
          w'.trace = w.trace ++ [.attempted i (.unattached (.refusal id)), .ended i (.failed (.refusal id))] := by
  have hr := (Reachable.start (α := α) false true).run hrun
  have hd : w.direct = true := direct_of_run hrun
  have hb := barren_of_run hrun
  exact ⟨fruitless_of_run hrun, fun e w' hs => hb.refuses_of_step hr hd hs,
    fun i p hp ht hs hf => hb.opens hr hd hp ht hs hf⟩

/-- The first opening fails and is tried again; the second one gives a channel that is refused. Another invocation is
about to open one. -/
def barred : List (Event Nat) :=
  [.deed (.supervise { confirms := true, classifier := Classifier.default.withReplyCodes [(541, .suppress)] }),
    .deed (.failNext (.unreachable "away")), .begin ⟨0⟩ ⟨0⟩ none, .begin ⟨1⟩ ⟨0⟩ none, .move ⟨0⟩ .enter,
    .move ⟨0⟩ .look, .move ⟨0⟩ .opens, .move ⟨0⟩ .look, .move ⟨0⟩ (.answer .elapsed), .move ⟨0⟩ .look,
    .move ⟨0⟩ .opens, .move ⟨1⟩ .enter, .move ⟨1⟩ .look]

theorem refused_for_good_barred : ∃ (w w' : Scene Nat) (id : ChannelId), (start false true).run barred = some w ∧
    w.refusals.map Prod.snd = [.refusal ⟨1⟩] ∧ w.client.connection.channel? ⟨1⟩ = some (Client.refused ⟨1⟩) ∧
    w.client.events = [] ∧ w.step (.move ⟨1⟩ .opens) = some w' ∧
    w'.trace = w.trace ++ [.attempted ⟨1⟩ (.unattached (.refusal id)), .ended ⟨1⟩ (.failed (.refusal id))] := by
  obtain ⟨w, hw⟩ := Option.isSome_iff_exists.1 (rfl : ((start false true).run barred).isSome = true)
  have hids : w.client.connection.channels.map Channel.id = [⟨1⟩] :=
    map_of_run (·.client.connection.channels.map Channel.id) hw rfl
  have htouched : w.trace.any (Mark.touches ⟨1⟩) = false := map_of_run (·.trace.any (Mark.touches ⟨1⟩)) hw rfl
  obtain ⟨ch, hch⟩ := Option.isSome_iff_exists.1
    (map_of_run (fun w => (w.client.connection.channel? ⟨1⟩).isSome) hw rfl : _ = true)
  obtain ⟨p, hp⟩ := Option.isSome_iff_exists.1 (map_of_run (fun w => (w.participants ⟨1⟩).isSome) hw rfl : _ = true)
  have hturn : (w.participants ⟨1⟩).map (fun p => (p.phase, p.invocation.stage)) = some (.turning, .opening) :=
    map_of_run (fun w => (w.participants ⟨1⟩).map fun p => (p.phase, p.invocation.stage)) hw rfl
  rw [hp, Option.map_some, Option.some.injEq, Prod.mk.injEq] at hturn
  obtain ⟨hfruitless, -, hopens⟩ := refused_for_good hw
  obtain ⟨w', id, hstep, -, htrace⟩ := hopens ⟨1⟩ p hp hturn.1 hturn.2
    (map_of_run (·.client.connection.failures) hw rfl)
  have htally := hfruitless.tally
  obtain rfl := htally.untouched ⟨1⟩ ch hch fun k hk => eq_false_of_ne_true (List.any_eq_false.1 htouched k hk)
  exact ⟨w, w', id, hw, by rw [htally.channels, hids]; rfl, hch, hfruitless.silent, hstep, htrace⟩

end Scene

end BrokerClient
