import BrokerClient.Proofs.Scene.Ends
import BrokerClient.Proofs.Scene.Readiness

/-!
# The same channel or a new one

Which channel a call gets depends on all that happened since the call before it (`channel_continuity`): it is the same
one unless an attempt failed with a verdict that costs the channel, or an attempt found the channel closed. Then the
channel was let go, and the next call is made on one that is opened for it.

What happens to the channel that a supervisor holds is said once for each step (`Fate`); `HoldsSince` follows it along
a run.
-/
namespace BrokerClient

namespace Client

variable {α : Type} {c c' : Client} {s : SupervisorId} {v : Invocation} {m : Move α} {q : Participant α}

theorem Begins.stage (h : Begins c v m) : v.stage = .queued ∨ ∃ d, v.stage = .delaying d := by
  cases h with
  | granted hq => exact .inl hq
  | again hd => exact .inr ⟨_, hd⟩

theorem Fails.stage {a : Attempt α} {e : TransportError} (h : Fails c v m a c' e) :
    v.stage = .opening ∨ ∃ ch, v.stage = .acting ch := by
  cases h with
  | unopened hs | unattached hs => exact .inl hs
  | acted hs => exact .inr ⟨_, hs⟩

theorem Fails.not_begins {a : Attempt α} {e : TransportError} (h : Fails c v m a c' e) : ¬ Begins c v m := by
  intro hb
  rcases h.stage with hs | ⟨ch, hs⟩ <;> rcases hb.stage with hs' | ⟨d, hs'⟩ <;> rw [hs] at hs' <;> cases hs'

theorem Fails.verdict {a : Attempt α} {e e' : TransportError} (h : Fails c v m a c' e) :
    c'.verdict v e' = c.verdict v e' := by
  unfold Client.verdict
  rw [h.supervisor]

/-- After a failure the channel is still held, unless the verdict costs it. -/
theorem held_failed_self (c : Client) (v : Invocation) (e : TransportError) :
    ((c.failed v e).supervisor v.supervisor).held =
      if (c.verdict v e).closes then none else (c.supervisor v.supervisor).held := by
  unfold failed Client.verdict
  simp only [supervisor_record]
  split
  · rw [held_closeHeld, if_pos rfl]
  · rfl

theorem Fails.held_failed {a : Attempt α} {e : TransportError} (h : Fails c v m a c' e) :
    ((c'.failed v e).supervisor v.supervisor).held =
      if (c.verdict v e).closes then none else (c.supervisor v.supervisor).held := by
  rw [held_failed_self, h.verdict, h.supervisor]

/-- A move of an invocation leaves alone what other supervisors hold. -/
theorem Leads.held_of_ne {a : Option (Attempt α)} (h : Leads c v m a c' q) (hs : s ≠ v.supervisor) :
    (c'.supervisor s).held = (c.supervisor s).held := by
  have hfailed (c : Client) (e : TransportError) :
      ((c.failed v e).supervisor s).held = (c.supervisor s).held := by
    unfold failed
    simp only [supervisor_record]
    split
    · rw [held_closeHeld, if_neg hs]
    · rfl
  have hattach {c₀ c₁ : Client} {id : ChannelId} (ha : c₀.attach v.supervisor id = (c₁, .ok ())) :
      c₁.supervisor s = c₀.supervisor s := by
    obtain ⟨ch, ha⟩ := attach_ok ha
    rw [ha.supervisor, if_neg (fun hm => hs hm.1)]
  cases h with
  | looked | rested | unheld | reuses => rfl
  | givenUp | succeeds => exact held_left c v s
  | discards => rw [discarded, held_closeHeld, if_neg hs, supervisor_record]
  | attaches _ ho ha => rw [hattach ha, ho.supervisor]
  | orphans _ ho ha => rw [held_left, held_closeHeld, if_neg hs, hattach ha, ho.supervisor]
  | throws hf => rw [held_left, hfailed, hf.supervisor]
  | suppresses hf => rw [hfailed, hf.supervisor]

/-- The attempt failed, and the verdict on its failure costs the channel. -/
def Costs (c : Client) (v : Invocation) (a : Option (Attempt α)) : Prop :=
  ∃ x f, a = some x ∧ x.result = .error f ∧ (c.verdict v f).closes = true

/-- What a move does to the channel that its supervisor holds. -/
inductive Treats (c : Client) (v : Invocation) (m : Move α) (a : Option (Attempt α)) (c' : Client) (q : Participant α) :
    Prop where
  | keeps (hh : (c'.supervisor v.supervisor).held = (c.supervisor v.supervisor).held) (ha : ¬ Costs c v a)
      (hb : Begins c v m → c.interruption? (α := α) v ≠ none)
  | costs (hh : (c'.supervisor v.supervisor).held = none) (ha : Costs c v a)
  | misses (hh : (c'.supervisor v.supervisor).held = none) (hb : Begins c v m)
      (hi : c.interruption? (α := α) v = none)
      (ho : ∀ h, (c.supervisor v.supervisor).held = some h → c.isOpen h.channel = false)
  | orphans (hh : (c'.supervisor v.supervisor).held = none) (hd : c'.isDisposed v.supervisor = true)
  | reuses {h : Held} (hb : Begins c v m) (hi : c.interruption? (α := α) v = none)
      (hh : (c.supervisor v.supervisor).held = some h) (ho : c.isOpen h.channel = true) (ha : a = none)
      (hq : q.reached = [.called v.id h.channel])
  | takes {c₀ : Client} {ch : ChannelId} (hs : v.stage = .opening) (ho : Opens c m c₀ (.ok ch))
      (hat : c₀.attach v.supervisor ch = (c', .ok ())) (hd : c'.isDisposed v.supervisor = false)
      (hq : q.reached = [.called v.id ch])

theorem treats_of_failed {x : Attempt α} {c₁ : Client} {f : TransportError} (hf : Fails c v m x c₁ f)
    (hh : (c'.supervisor v.supervisor).held = ((c₁.failed v f).supervisor v.supervisor).held) :
    Treats c v m (some x) c' q := by
  rw [hf.held_failed] at hh
  cases hc : (c.verdict v f).closes with
  | true => exact .costs (by rw [hh, hc]; rfl) ⟨x, f, rfl, hf.result, hc⟩
  | false =>
      refine .keeps (by rw [hh, hc]; rfl) ?_ (fun hb => absurd hb hf.not_begins)
      rintro ⟨x', f', hx, hres, hcl⟩
      cases hx
      rw [hf.result] at hres
      cases hres
      rw [hc] at hcl
      cases hcl

theorem Leads.treats {a : Option (Attempt α)} (h : Leads c v m a c' q) : Treats c v m a c' q := by
  have hnone : ¬ Costs (α := α) c v none := by rintro ⟨_, _, ha, -⟩; cases ha
  cases h with
  | looked hm => exact .keeps rfl hnone (fun hb => by rw [hm] at hb; cases hb)
  | rested hm => exact .keeps rfl hnone (fun hb => by rw [hm] at hb; cases hb)
  | givenUp hm hi => exact .keeps (held_left ..) hnone (fun _ => by simp [hi])
  | unheld hb hi hh => exact .misses hh hb hi (fun h hh' => by rw [hh] at hh'; cases hh')
  | discards hb hi hh ho =>
      refine .misses ((held_closeHeld ..).trans (if_pos rfl)) hb hi fun h hh' => ?_
      rw [hh] at hh'
      cases hh'
      exact ho
  | reuses hb hi hh ho => exact .reuses hb hi hh ho rfl rfl
  | attaches hs ho ha hd => exact .takes hs ho ha hd rfl
  | orphans hs ho ha hd =>
      exact .orphans (by rw [held_left, held_closeHeld, if_pos rfl])
        ((((Keeps.closeHeld _).trans (.left v)).disposed _).trans hd)
  | throws hf => exact treats_of_failed hf (held_left ..)
  | suppresses hf => exact treats_of_failed hf rfl
  | succeeds hs hm =>
      refine .keeps (held_left ..) ?_ (fun hb => by rw [hm] at hb; cases hb)
      rintro ⟨x, f, hx, hres, -⟩
      cases hx
      cases hres

/-- A deed leaves alone what a supervisor holds, unless it disposes of it. -/
theorem held_of_perform? {d : Deed} (h : c.perform? d = some c') (s : SupervisorId) :
    (c'.supervisor s).held = (c.supervisor s).held ∨
      (c'.supervisor s).held = none ∧ c'.isDisposed s = true := by
  rcases held_perform? h s with hh | hh
  · exact .inl hh
  · rcases perform?_cases h with ⟨o, rfl, rfl⟩ | ⟨s', rfl, hs, rfl⟩ | ⟨t, rfl, rfl⟩ | ⟨-, -, hs, -⟩
    · left
      rw [supervisor_addSupervisor]
      split
      · rw [supervisor_of_le (by omega)]
      · rfl
    · by_cases hs' : s = s'
      · exact .inr ⟨hh, (isDisposed_dispose hs s).2 (.inr hs')⟩
      · left
        unfold dispose
        split
        · rfl
        · rw [supervisor_record, held_closeHeld, if_neg hs', supervisor_modify_of_ne hs']
    · left
      unfold cancel
      split <;> rfl
    · left
      simp only [supervisor, hs]

/-- A new channel has the greatest number. -/
theorem lt_of_openChannel {id : ChannelId}
    (hn : ∀ j ∈ c.connection.channels.map Channel.id, j.number ≤ c.connection.channels.length)
    (h : c.openChannel.2 = .ok id) : ∀ j ∈ c.connection.channels.map Channel.id, j.number < id.number := by
  intro j hj
  rcases openChannel_cases c with ⟨e, rest, -, ho⟩ | ⟨new, rfl, ho⟩
  · rw [ho] at h
    cases h
  · rw [ho] at h
    cases h
    exact Nat.lt_succ_of_le (hn j hj)

end Client

namespace Scene

variable {α : Type} {w w' w₀ w₁ : Scene α} {e : Event α} {i : InvocationId} {p q : Participant α} {s : SupervisorId}
  {ch id : ChannelId} {m : Move α}

/-! ## Runs step by step -/

/-- Each event of a run satisfies a condition in the scene in which it happens. -/
def Along (P : Scene α → Event α → Prop) (w : Scene α) : List (Event α) → Prop
  | [] => True
  | e :: es => P w e ∧ ∀ w', w.step e = some w' → w'.Along P es

theorem along_cons {P : Scene α → Event α → Prop} {es : List (Event α)} (hs : w.step e = some w') :
    w.Along P (e :: es) ↔ P w e ∧ w'.Along P es := by
  simp only [Along, hs, Option.some.injEq, forall_eq']

theorem trace_of_run {es : List (Event α)} (hrun : w.run es = some w') : ∃ ms, w'.trace = w.trace ++ ms := by
  induction es generalizing w with
  | nil => cases hrun; exact ⟨[], (List.append_nil _).symm⟩
  | cons e es ih =>
      obtain ⟨w₁, hs, hrun⟩ := run_cons_eq_some.1 hrun
      obtain ⟨ms, hms⟩ := (steps_of_step hs).trace
      obtain ⟨ms', hms'⟩ := ih hrun
      exact ⟨ms ++ ms', by rw [hms', hms, List.append_assoc]⟩

theorem along_append {P : Scene α → Event α → Prop} {es es' : List (Event α)} (hrun : w.run es = some w') :
    w.Along P (es ++ es') ↔ w.Along P es ∧ w'.Along P es' := by
  induction es generalizing w with
  | nil =>
      cases hrun
      simp [Along]
  | cons e es ih =>
      obtain ⟨w₁, hs, hrun⟩ := run_cons_eq_some.1 hrun
      rw [List.cons_append, along_cons hs, along_cons hs, ih hrun, and_assoc]

/-! ## Calls and attempts -/

/-- The invocation is one of the supervisor. -/
def Belongs (w : Scene α) (s : SupervisorId) (i : InvocationId) : Prop :=
  ∃ p, w.participants i = some p ∧ p.invocation.supervisor = s

def Leaves (w : Scene α) (e : Event α) (k : Mark α) : Prop :=
  ∃ w' ms, w.step e = some w' ∧ w'.trace = w.trace ++ ms ∧ k ∈ ms

/-- The supervisor calls an action on the channel. -/
def Calls (w : Scene α) (s : SupervisorId) (e : Event α) (ch : ChannelId) : Prop :=
  ∃ i, w.Belongs s i ∧ w.Leaves e (.called i ch)

/-- The invocation begins an attempt. -/
def Tries (w : Scene α) (i : InvocationId) (e : Event α) : Prop :=
  ∃ p m, w.participants i = some p ∧ e = .move i m ∧ w.client.Begins p.invocation m ∧
    w.client.interruption? (α := α) p.invocation = none

/-- An attempt of the supervisor fails, and the verdict on its failure costs the channel. -/
def Condemns (w : Scene α) (s : SupervisorId) (e : Event α) : Prop :=
  ∃ i a f, w.Belongs s i ∧ w.Leaves e (.attempted i a) ∧ a.result = .error f ∧
    ((w.client.supervisor s).options.classifier.classify f).closes = true

/-- No reason to take another channel: none is condemned, and every attempt finds this one open. -/
def Spares (s : SupervisorId) (ch : ChannelId) (w : Scene α) (e : Event α) : Prop :=
  ¬ w.Condemns s e ∧ ∀ i, w.Belongs s i → w.Tries i e → w.client.isOpen ch = true

/-- A mark of an invocation is left by its own move. -/
theorem Reachable.move_of_leaves {k : Mark α} (hr : w.Reachable) (hp : w.participants i = some p)
    (h : w.Leaves e k) (hk : k.isOf i = true) : ∃ m c q, e = .move i m ∧ w.client.move? p m = some (c, q) ∧
      w.step e = some (w.put c i q (marks w.client p.invocation m q)) ∧ k ∈ marks w.client p.invocation m q := by
  obtain ⟨w', ms, hs, ht, hin⟩ := h
  by_cases hm : ∃ m, e = .move i m
  · obtain ⟨m, rfl⟩ := hm
    obtain ⟨c, q, hmove, rfl⟩ := move_of_step hs hp
    obtain rfl := List.append_cancel_left ht
    exact ⟨m, c, q, rfl, hmove, hs, hin⟩
  · obtain ⟨ms', ht', hno⟩ := (steps_of_step hs).marks_of_others hr hp (fun m h => hm ⟨m, h⟩)
    obtain rfl := List.append_cancel_left (ht.symm.trans ht')
    rw [hno k hin] at hk
    cases hk

theorem tries_move {j : InvocationId} (hp : w.participants i = some p) (h : w.Tries j (.move i m)) :
    j = i ∧ w.client.Begins p.invocation m ∧ w.client.interruption? (α := α) p.invocation = none := by
  obtain ⟨p', m', hp', he, hb, hi⟩ := h
  cases he
  rw [hp] at hp'
  cases hp'
  exact ⟨rfl, hb, hi⟩

theorem attempted_mem_marks {c : Client} {v : Invocation} {a : Attempt α} (h : .attempted i a ∈ marks c v m q) :
    c.attempted? v m = some a := by
  unfold marks at h
  split at h
  · cases h
  · rcases List.mem_append.1 h with h | h
    · obtain ⟨a', ha, heq⟩ := Option.map_eq_some_iff.1 (Option.mem_toList.1 h)
      cases heq
      exact ha
    · unfold Participant.reached at h
      split at h <;> simp at h

theorem Reachable.condemns_move (hr : w.Reachable) (hp : w.participants i = some p) (h : w.Condemns s (.move i m)) :
    p.invocation.supervisor = s ∧ w.client.Costs p.invocation (w.client.attempted? p.invocation m) := by
  obtain ⟨j, a, f, ⟨p', hp', rfl⟩, hl, hres, hcl⟩ := h
  obtain ⟨m', c, q, he, -, -, hin⟩ := hr.move_of_leaves hp' hl (decide_eq_true rfl)
  cases he
  rw [hp] at hp'
  cases hp'
  exact ⟨rfl, a, f, attempted_mem_marks hin, hres, hcl⟩

theorem condemns_of_costs {c : Client} (hp : w.participants i = some p) (hid : p.invocation.id = i)
    (hs : w.step (.move i m) = some (w.put c i q (marks w.client p.invocation m q)))
    (h : w.client.Costs p.invocation (w.client.attempted? p.invocation m)) :
    w.Condemns p.invocation.supervisor (.move i m) := by
  obtain ⟨a, f, ha, hres, hcl⟩ := h
  have hrest : m ≠ .rest := by rintro rfl; cases ha
  refine ⟨i, a, f, ⟨p, hp, rfl⟩, ⟨_, _, hs, rfl, ?_⟩, hres, hcl⟩
  rw [marks_of_ne_rest hrest, ha, hid]
  exact List.mem_append_left _ (List.mem_singleton.2 rfl)

/-- What a step that calls no action of the supervisor comes to for the channel that it holds. -/
inductive Fate (w : Scene α) (s : SupervisorId) (e : Event α) (w' : Scene α) : Prop where
  | stays (hh : (w'.client.supervisor s).held = (w.client.supervisor s).held) (hc : ¬ w.Condemns s e)
      (ht : ∀ i, w.Belongs s i → ¬ w.Tries i e)
  | condemned (hh : (w'.client.supervisor s).held = none) (hc : w.Condemns s e)
  | missed {i : InvocationId} (hh : (w'.client.supervisor s).held = none) (hi : w.Belongs s i) (ht : w.Tries i e)
      (ho : ∀ h, (w.client.supervisor s).held = some h → w.client.isOpen h.channel = false)
  | disposed (hh : (w'.client.supervisor s).held = none) (hd : w'.client.isDisposed s = true)

theorem fate_of_others (hr : w.Reachable) (hs : w.step e = some w') (hm : ∀ i m, w.Belongs s i → e ≠ .move i m) :
    w.Fate s e w' := by
  have hc : ¬ w.Condemns s e := by
    rintro ⟨i, a, f, ⟨p, hp, hsup⟩, hl, -⟩
    obtain ⟨m, -, -, he, -⟩ := hr.move_of_leaves hp hl (decide_eq_true rfl)
    exact hm i m ⟨p, hp, hsup⟩ he
  have ht : ∀ i, w.Belongs s i → ¬ w.Tries i e := by
    rintro i hi ⟨p, m, -, he, -⟩
    exact hm i m hi he
  cases steps_of_step hs with
  | deed hf hd =>
      rcases Client.held_of_perform? hd s with hh | ⟨hh, hdisposed⟩
      · exact .stays hh hc ht
      · exact .disposed hh hdisposed
  | begin hl hi hb => exact .stays (hb.held s) hc ht
  | move hf hi hmove =>
      exact .stays ((Client.leads_of_move? hmove).held_of_ne fun h => hm _ _ ⟨_, hi, h.symm⟩ rfl) hc ht

theorem fate_of_step (hr : w.Reachable) (hs : w.step e = some w') (hno : ∀ ch, ¬ w.Calls s e ch) : w.Fate s e w' := by
  by_cases hm : ∃ i m, w.Belongs s i ∧ e = .move i m
  · obtain ⟨i, m, ⟨p, hp, rfl⟩, rfl⟩ := hm
    obtain ⟨c, q, hmove, rfl⟩ := move_of_step hs hp
    have hid := (hr.known hp).id
    have hcalled {ch : ChannelId} (hrest : m ≠ .rest) (hq : q.reached = [.called p.invocation.id ch]) : False := by
      refine hno ch ⟨i, ⟨p, hp, rfl⟩, _, _, hs, rfl, ?_⟩
      rw [marks_of_ne_rest hrest, hq, hid]
      exact List.mem_append_right _ (List.mem_singleton.2 rfl)
    cases (Client.leads_of_move? hmove).treats with
    | keeps hh ha hb =>
        refine .stays hh (fun h => ha (hr.condemns_move hp h).2) fun j _ ht => ?_
        obtain ⟨-, hb', hi⟩ := tries_move hp ht
        exact hb hb' hi
    | costs hh ha => exact .condemned hh (condemns_of_costs hp hid hs ha)
    | misses hh hb hi ho => exact .missed hh ⟨p, hp, rfl⟩ ⟨p, m, hp, rfl, hb, hi⟩ ho
    | orphans hh hd => exact .disposed hh hd
    | reuses hb hi hh ho ha hq => exact (hcalled hb.ne_rest hq).elim
    | takes hstage ho hat hd hq => exact (hcalled ho.ne_rest hq).elim
  · exact fate_of_others hr hs fun i m hi he => hm ⟨i, m, hi, he⟩

/-! ## What is held since a call -/

/-- The supervisor still holds the channel if nothing spoke against it, and holds none otherwise. -/
structure HoldsSince (w : Scene α) (s : SupervisorId) (ch : ChannelId) (spared : Prop) : Prop where
  kept : spared → w.client.isDisposed s = false → (w.client.supervisor s).channel? = some ch
  lost : ¬ spared → (w.client.supervisor s).held = none

theorem HoldsSince.step {g : Prop} (h : w.HoldsSince s ch g) (hr : w.Reachable) (hs : w.step e = some w')
    (hno : ∀ ch, ¬ w.Calls s e ch) : w'.HoldsSince s ch (g ∧ w.Spares s ch e) := by
  have hlive (hd : w'.client.isDisposed s = false) : w.client.isDisposed s = false := by
    cases hd' : w.client.isDisposed s with
    | false => rfl
    | true => exact ((steps_of_step hs).grows.disposed s hd').symm.trans hd
  cases fate_of_step hr hs hno with
  | stays hh hc ht =>
      have hspares : w.Spares s ch e := ⟨hc, fun i hi h => absurd h (ht i hi)⟩
      refine ⟨fun hg hd => ?_, fun hg => hh.trans (h.lost fun hg' => hg ⟨hg', hspares⟩)⟩
      rw [Supervisor.channel?, hh]
      exact h.kept hg.1 (hlive hd)
  | condemned hh hc => exact ⟨fun hg => absurd hc hg.2.1, fun _ => hh⟩
  | missed hh hi ht ho =>
      refine ⟨fun hg hd => ?_, fun _ => hh⟩
      obtain ⟨k, hk, rfl⟩ := Option.map_eq_some_iff.1 (h.kept hg.1 (hlive hd))
      exact absurd (hg.2.2 _ hi ht) (by simp [ho k hk])
  | disposed hh hd => exact ⟨fun _ hd' => absurd (hd.symm.trans hd') (by simp), fun _ => hh⟩

theorem HoldsSince.run {g : Prop} {es : List (Event α)} (h : w.HoldsSince s ch g) (hr : w.Reachable)
    (hrun : w.run es = some w') (hno : w.Along (fun w e => ∀ ch, ¬ w.Calls s e ch) es) :
    w'.HoldsSince s ch (g ∧ w.Along (Spares s ch) es) := by
  induction es generalizing w g with
  | nil =>
      cases hrun
      simpa [Along] using h
  | cons e es ih =>
      obtain ⟨w₁, hs, hrun⟩ := run_cons_eq_some.1 hrun
      rw [along_cons hs] at hno
      have := ih (h.step hr hs hno.1) (hr.step hs) hrun hno.2
      rwa [and_assoc, ← along_cons hs] at this

theorem holds_of_call (hr : w.Reachable) (hd : w.direct = true) (hs : w.step e = some w') (h : w.Calls s e ch) :
    w'.HoldsSince s ch True ∧ w'.client.knows ch = true := by
  obtain ⟨i, ⟨p, hp, rfl⟩, w'', ms, hs', ht, hk⟩ := h
  obtain rfl := Option.some.inj (hs.symm.trans hs')
  obtain ⟨-, p', hp', -, -, hready⟩ := hr.ready_of_call hd hs ht hk
  obtain ⟨p'', hp'', hsup, -⟩ := (steps_of_step hs).persists hp
  obtain rfl := Option.some.inj (hp'.symm.trans hp'')
  rw [hsup] at hready
  obtain ⟨-, x, -, hx, -⟩ := hready.wired
  exact ⟨⟨fun _ _ => hready.named, fun hn => absurd trivial hn⟩, by rw [Client.knows, hx]; rfl⟩

/-- An action is called on the channel that is held, if the attempt finds it open, or on one that is opened for it. -/
theorem Reachable.call_cases (hr : w.Reachable) (hd : w.direct = true) (hs : w.step e = some w') (h : w.Calls s e ch) :
    w.client.isDisposed s = false ∧
      ((w.client.supervisor s).channel? = some ch ∧ w.Spares s ch e ∨
        (w.client.supervisor s).held = none ∧ w.client.openChannel.2 = .ok ch) := by
  obtain ⟨i, ⟨p, hp, rfl⟩, hl⟩ := h
  obtain ⟨m, c, q, rfl, hmove, -, hk⟩ := hr.move_of_leaves hp hl (decide_eq_true rfl)
  have hown : ∀ r, m ≠ .answer (.opened r) := by
    rintro r rfl
    cases steps_of_step hs with
    | move hf => rw [hd] at hf; cases hf
  have hrest : m ≠ .rest := by rintro rfl; cases hk
  have hleads := Client.leads_of_move? hmove
  have hcosts := fun h => (hr.condemns_move (s := p.invocation.supervisor) (m := m) hp h).2
  rw [marks_of_ne_rest hrest] at hk
  generalize w.client.attempted? p.invocation m = a at hleads hk hcosts
  cases hleads with
  | rested hm => exact absurd hm hrest
  | looked | givenUp | unheld | discards | orphans | throws | suppresses | succeeds =>
      simp [Participant.reached] at hk
  | reuses hb hi hh ho =>
      obtain ⟨rfl, rfl⟩ : i = p.invocation.id ∧ ch = _ := by simpa [Participant.reached] using hk
      refine ⟨(Client.interruption?_eq_none.1 hi).1, .inl ⟨?_, fun hc => ?_, fun _ _ _ => ho⟩⟩
      · rw [Supervisor.channel?, hh]
        rfl
      · obtain ⟨_, _, ha, -⟩ := hcosts hc
        cases ha
  | attaches hv ho ha hdis =>
      obtain ⟨rfl, rfl⟩ : i = p.invocation.id ∧ ch = _ := by simpa [Participant.reached] using hk
      refine ⟨?_, .inr ⟨hr.held_of_opening hp (Client.phase_of_move? hmove) hv, by rw [ho.own_of hown]⟩⟩
      rw [← (ho.keeps.trans (.attach ha)).disposed]
      exact hdis

theorem Reachable.next_call {es : List (Event α)} {e' : Event α} {ch' : ChannelId} (hr : w.Reachable)
    (hd : w.direct = true) (hs : w.step e = some w₁) (hc : w.Calls s e ch) (hrun : w₁.run es = some w')
    (hno : w₁.Along (fun w e => ∀ ch, ¬ w.Calls s e ch) es) (hc' : w'.Calls s e' ch') :
    (ch' = ch ↔ w₁.Along (Spares s ch) (es ++ [e'])) ∧
      (ch' ≠ ch → ∀ id ∈ w'.client.connection.channels.map Channel.id, id.number < ch'.number) := by
  obtain ⟨hholds, hknown⟩ := holds_of_call hr hd hs hc
  have hr₁ := hr.step hs
  have hr' := hr₁.run hrun
  have hd' : w'.direct = true := (direct_of_run hrun).trans ((steps_of_step hs).direct.trans hd)
  have hholds := hholds.run hr₁ hrun hno
  obtain ⟨w₂, ms, hs', -⟩ := hc'.choose_spec.2
  obtain ⟨hdis, hcase⟩ := hr'.call_cases hd' hs' hc'
  rw [along_append hrun]
  simp only [Along, implies_true, and_true]
  rcases hcase with ⟨hch, hspares⟩ | ⟨hheld, ho⟩
  · -- A channel is held, so the first one was not lost, and it is the one that is held.
    have hg : w₁.Along (Spares s ch) es := by
      by_contra hg
      rw [Supervisor.channel?, hholds.lost fun h => hg h.2] at hch
      cases hch
    obtain rfl := Option.some.inj (hch.symm.trans (hholds.kept ⟨trivial, hg⟩ hdis))
    exact ⟨iff_of_true rfl ⟨hg, hspares⟩, fun hne => absurd rfl hne⟩
  · -- None is held, so the first one was lost, and the new one is unknown until now.
    have hfresh := (Client.channel?_openChannel (hr'.custody hd').numbered ho).1
    refine ⟨iff_of_false ?_ ?_, fun _ => Client.lt_of_openChannel (hr'.custody hd').numbered ho⟩
    · rintro rfl
      obtain ⟨x, hx⟩ := Option.isSome_iff_exists.1 hknown
      obtain ⟨x', hx', -⟩ := retains_of_run hrun _ x hx
      rw [hfresh] at hx'
      cases hx'
    · rintro ⟨hg, -⟩
      have := hholds.kept ⟨trivial, hg⟩ hdis
      rw [Supervisor.channel?, hheld] at this
      cases this

/-- No action is called where the trace tells of no call. -/
theorem along_of_trace {es : List (Event α)} {ms : List (Mark α)} (hrun : w.run es = some w')
    (ht : w'.trace = w.trace ++ ms) (hno : ∀ i ch, .called i ch ∉ ms) :
    w.Along (fun w e => ∀ ch, ¬ w.Calls s e ch) es := by
  induction es generalizing w ms with
  | nil => trivial
  | cons e es ih =>
      obtain ⟨w₁, hs, hrun⟩ := run_cons_eq_some.1 hrun
      obtain ⟨ms₁, hms₁⟩ := (steps_of_step hs).trace
      obtain ⟨ms₂, hms₂⟩ := trace_of_run hrun
      rw [hms₂, hms₁, List.append_assoc] at ht
      obtain rfl := List.append_cancel_left ht
      refine (along_cons hs).2 ⟨?_, ih hrun hms₂ fun i ch hk => hno i ch (List.mem_append_right _ hk)⟩
      rintro ch ⟨i, -, w₂, ms, hs', hms, hk⟩
      obtain rfl := Option.some.inj (hs.symm.trans hs')
      obtain rfl := List.append_cancel_left (hms₁.symm.trans hms)
      exact hno i ch (List.mem_append_left _ hk)

/-! ## Openings -/

/-- The last attempt of the invocation found no open channel, and the invocation has opened none since. -/
def Seeks (w₀ : Scene α) (es : List (Event α)) (i : InvocationId) : Prop :=
  ∃ es₁ e es₂ w w', es = es₁ ++ e :: es₂ ∧ w₀.run es₁ = some w ∧ w.step e = some w' ∧ w.Tries i e ∧
    (∀ s, w.Belongs s i → ∀ id, (w.client.supervisor s).channel? = some id → w.client.isOpen id = false) ∧
    w'.Along (fun w e => ¬ w.Tries i e ∧ e ≠ .move i .opens) es₂

theorem Seeks.later {es : List (Event α)} (h : w₀.Seeks es i) (hrun : w₀.run es = some w) (ht : ¬ w.Tries i e)
    (hm : e ≠ .move i .opens) : w₀.Seeks (es ++ [e]) i := by
  obtain ⟨es₁, e₁, es₂, w₁, w₂, rfl, h₁, hs, htries, hclosed, halong⟩ := h
  refine ⟨es₁, e₁, es₂ ++ [e], w₁, w₂, by simp, h₁, hs, htries, hclosed, ?_⟩
  rw [run_append, h₁, Option.bind_some, run, hs, Option.bind_some] at hrun
  rw [along_append hrun]
  exact ⟨halong, ⟨ht, hm⟩, fun _ _ => trivial⟩

theorem seeks_of_opening {recoverable direct : Bool} {es : List (Event α)}
    (hrun : (start recoverable direct).run es = some w) (hp : w.participants i = some p)
    (hn : ∀ o, p.phase ≠ .ended o) (ho : p.invocation.stage = .opening) : (start recoverable direct).Seeks es i := by
  induction es using List.reverseRecOn generalizing w p with
  | nil => cases hrun; cases hp
  | append_singleton es e ih =>
      rw [run_append, Option.bind_eq_some_iff] at hrun
      obtain ⟨w₁, h₁, hlast⟩ := hrun
      obtain ⟨w₂, hs, h₂⟩ := run_cons_eq_some.1 hlast
      cases h₂
      by_cases hmove : ∃ m, e = .move i m
      · obtain ⟨m, rfl⟩ := hmove
        cases steps_of_step hs with
        | @move _ _ p₁ _ c hf hp₁ hm =>
            simp only [put, if_true, Option.some.injEq] at hp
            subst hp
            -- A look or a rest goes on with the attempt; nothing else but its beginning leads to an opening.
            have hidle (hm : m = .look ∨ m = .rest) : ¬ w₁.Tries i (.move i m) := by
              intro ht
              obtain ⟨-, hb, -⟩ := tries_move hp₁ ht
              rcases hm with rfl | rfl <;> cases hb
            have hfound (hb : w₁.client.Begins p₁.invocation m)
                (hi : w₁.client.interruption? (α := α) p₁.invocation = none)
                (hclosed : ∀ id, (w₁.client.supervisor p₁.invocation.supervisor).channel? = some id →
                  w₁.client.isOpen id = false) : (start recoverable direct).Seeks (es ++ [.move i m]) i := by
              refine ⟨es, _, [], w₁, _, rfl, h₁, hs, ⟨p₁, m, hp₁, rfl, hb, hi⟩, ?_, trivial⟩
              rintro s ⟨p', hp', rfl⟩
              rw [hp₁] at hp'
              cases hp'
              exact hclosed
            have hleads := Client.leads_of_move? hm
            generalize w₁.client.attempted? p₁.invocation m = a at hleads
            cases hleads with
            | looked hl => exact (ih h₁ hp₁ (Client.phase_of_move? hm) ho).later h₁ (hidle (.inl hl)) (by simp [hl])
            | rested hl => exact (ih h₁ hp₁ (Client.phase_of_move? hm) ho).later h₁ (hidle (.inr hl)) (by simp [hl])
            | unheld hb hi hh => exact hfound hb hi fun id hid => by rw [Supervisor.channel?, hh] at hid; cases hid
            | discards hb hi hh hclosed =>
                refine hfound hb hi fun id hid => ?_
                rw [Supervisor.channel?, hh] at hid
                cases hid
                exact hclosed
            | reuses | attaches | suppresses => cases ho
            | givenUp | orphans | throws | succeeds => exact absurd rfl (hn _)
      · have ht : ¬ w₁.Tries i e := by
          rintro ⟨-, m, -, he, -⟩
          exact hmove ⟨m, he⟩
        have hopens : e ≠ .move i .opens := fun he => hmove ⟨.opens, he⟩
        refine (ih h₁ ?_ hn ho).later h₁ ht hopens
        rw [← hp, (steps_of_step hs).participants ?_ fun m he => hmove ⟨m, he⟩]
        rintro s t rfl
        cases steps_of_step hs with
        | begin hl hi hb =>
            simp only [put, if_true, Option.some.injEq] at hp
            rw [← hp, hb.invocation] at ho
            cases ho

/-! ## Failures -/

/-- When an invocation ends with a failure, the verdict on it says whether the channel is still held. -/
theorem Reachable.held_of_failed {f : TransportError} (hr : w.Reachable) (hp : w.participants i = some p)
    (hs : w.step e = some w') (hl : w.Leaves e (.ended i (.failed f))) :
    (w'.client.supervisor p.invocation.supervisor).held =
      if (w.client.verdict p.invocation f).closes then none
      else (w.client.supervisor p.invocation.supervisor).held := by
  obtain ⟨m, c, q, rfl, hmove, hs', hk⟩ := hr.move_of_leaves hp hl (decide_eq_true rfl)
  obtain rfl := Option.some.inj (hs.symm.trans hs')
  obtain ⟨hphase, -⟩ := Participant.phase_of_reached (ended_mem_marks hk)
  have hleads := Client.leads_of_move? hmove
  generalize w.client.attempted? p.invocation m = a at hleads
  cases hleads with
  | looked | rested | unheld | discards | reuses | attaches | suppresses => cases hphase
  | orphans | succeeds => cases hphase
  | givenUp hm hi =>
      cases hphase
      rcases Client.interruption?_eq_some hi with ⟨ho, -⟩ | ⟨ho, -⟩ <;> cases ho
  | throws hf hv =>
      cases hphase
      exact (Client.held_left ..).trans hf.held_failed

/-! ## Continuity -/

/-- How channels follow one another, at the scene to which a run has led.

A call after another one of the same supervisor is made on the same channel if and only if nothing spoke against it, and
on one that is newer than all others otherwise. The connection is asked for a channel at most once for each attempt, and
only if the attempt found no open one. When an invocation ends with a failure, the channel is let go if the verdict on
the failure says so, and is held as before otherwise. -/
structure Continuity (w₀ : Scene α) (es : List (Event α)) (w : Scene α) : Prop where
  calls : ∀ s e ch w₁ es' w₂ e' ch', w.step e = some w₁ → w.Calls s e ch → w₁.run es' = some w₂ →
    w₁.Along (fun w e => ∀ ch, ¬ w.Calls s e ch) es' → w₂.Calls s e' ch' →
    (ch' = ch ↔ w₁.Along (Spares s ch) (es' ++ [e'])) ∧
      (ch' ≠ ch → ∀ id ∈ w₂.client.connection.channels.map Channel.id, id.number < ch'.number)
  openings : ∀ i w₁, w.step (.move i .opens) = some w₁ → w₀.Seeks es i
  failures : ∀ i p e w₁ f, w.participants i = some p → w.step e = some w₁ → w.Leaves e (.ended i (.failed f)) →
    (w₁.client.supervisor p.invocation.supervisor).held =
      if (w.client.verdict p.invocation f).closes then none
      else (w.client.supervisor p.invocation.supervisor).held

theorem channel_continuity {recoverable : Bool} {es : List (Event α)}
    (hrun : (start recoverable true).run es = some w) : (start recoverable true).Continuity es w := by
  have hr := (Reachable.start recoverable true).run hrun
  refine ⟨?calls, ?openings, ?failures⟩
  case calls =>
    intro s e ch w₁ es' w₂ e' ch' hs hc hrun' hno hc'
    exact hr.next_call (direct_of_run hrun) hs hc hrun' hno hc'
  case openings =>
    intro i w₁ hs
    cases steps_of_step hs with
    | move hf hp hm =>
        exact seeks_of_opening hrun hp (Client.phase_of_move? hm) (Client.move?_of_opens .own hm).1
  case failures =>
    intro i p e w₁ f hp hs hl
    exact hr.held_of_failed hp hs hl

/-- Until a first attempt opens a channel. -/
def starting : List (Event Nat) :=
  [.deed (.supervise {}), .begin ⟨0⟩ ⟨0⟩ none, .move ⟨0⟩ .enter, .move ⟨0⟩ .look]

/-- The channel shuts down under the first call and the action fails, until a second attempt opens a channel. -/
def interrupted : List (Event Nat) :=
  [.move ⟨0⟩ .look, .deed (.signal ⟨1⟩ (.shutdown .goodbye)),
    .move ⟨0⟩ (.answer (.acted (.error (.unreachable "away")))), .move ⟨0⟩ .look, .move ⟨0⟩ (.answer .elapsed),
    .move ⟨0⟩ .look]

theorem channel_continuity_interrupted : ∃ w w₁ w₂ : Scene Nat, (start true true).run starting = some w ∧
    w.step (.move ⟨0⟩ .opens) = some w₁ ∧ w₁.run interrupted = some w₂ ∧ w.Calls ⟨0⟩ (.move ⟨0⟩ .opens) ⟨1⟩ ∧
    w₂.Calls ⟨0⟩ (.move ⟨0⟩ .opens) ⟨2⟩ ∧ ¬ w₁.Along (Spares ⟨0⟩ ⟨1⟩) (interrupted ++ [.move ⟨0⟩ .opens]) ∧
    ∀ id ∈ w₂.client.connection.channels.map Channel.id, id.number < 2 := by
  have hcalls {w w' : Scene Nat} {ch : ChannelId} (hs : w.step (.move ⟨0⟩ .opens) = some w')
      (hp : (w.participants ⟨0⟩).map (·.invocation.supervisor) = some ⟨0⟩)
      (ht : w'.trace = w.trace ++ [.called ⟨0⟩ ch]) : w.Calls ⟨0⟩ (.move ⟨0⟩ .opens) ch := by
    obtain ⟨p, hp, hsup⟩ := Option.map_eq_some_iff.1 hp
    exact ⟨⟨0⟩, ⟨p, hp, hsup⟩, w', _, hs, ht, List.mem_singleton.2 rfl⟩
  obtain ⟨w₃, h₃⟩ := Option.isSome_iff_exists.1 (rfl : ((start true true).run
    (starting ++ [.move ⟨0⟩ .opens] ++ interrupted ++ [.move ⟨0⟩ .opens])).isSome = true)
  obtain ⟨w₂, h₂, hs'⟩ := Option.bind_eq_some_iff.1 ((run_append ..).symm.trans h₃)
  obtain ⟨w₁, h₁, hrun⟩ := Option.bind_eq_some_iff.1 ((run_append ..).symm.trans h₂)
  obtain ⟨w, hw, hs⟩ := Option.bind_eq_some_iff.1 ((run_append ..).symm.trans h₁)
  obtain ⟨w₁', hs, h⟩ := run_cons_eq_some.1 hs
  cases h
  obtain ⟨w₃', hs', h⟩ := run_cons_eq_some.1 hs'
  cases h
  have ht : w.trace = [.deed (.supervise {}), .began ⟨0⟩ ⟨0⟩ none, .opening ⟨0⟩] := map_of_run (·.trace) hw rfl
  have ht₁ : w₁.trace = [.deed (.supervise {}), .began ⟨0⟩ ⟨0⟩ none, .opening ⟨0⟩] ++ [.called ⟨0⟩ ⟨1⟩] :=
    map_of_run (·.trace) h₁ rfl
  have ht₂ : w₂.trace = [.deed (.supervise {}), .began ⟨0⟩ ⟨0⟩ none, .opening ⟨0⟩] ++ [.called ⟨0⟩ ⟨1⟩] ++
      [.deed (.signal ⟨1⟩ (.shutdown .goodbye)), .attempted ⟨0⟩ (.acted (.error (.unreachable "away"))),
        .opening ⟨0⟩] := map_of_run (·.trace) h₂ rfl
  have ht₃ : w₃.trace = [.deed (.supervise {}), .began ⟨0⟩ ⟨0⟩ none, .opening ⟨0⟩] ++ [.called ⟨0⟩ ⟨1⟩] ++
      [.deed (.signal ⟨1⟩ (.shutdown .goodbye)), .attempted ⟨0⟩ (.acted (.error (.unreachable "away"))),
        .opening ⟨0⟩] ++
      [.called ⟨0⟩ ⟨2⟩] := map_of_run (·.trace) h₃ rfl
  rw [← ht₂] at ht₃
  rw [← ht₁] at ht₂
  rw [← ht] at ht₁
  have hc := hcalls hs (map_of_run (fun w => (w.participants ⟨0⟩).map (·.invocation.supervisor)) hw rfl) ht₁
  have hc' := hcalls hs' (map_of_run (fun w => (w.participants ⟨0⟩).map (·.invocation.supervisor)) h₂ rfl) ht₃
  obtain ⟨hsame, hnew⟩ := (channel_continuity hw).calls _ _ _ _ _ _ _ _ hs hc hrun
    (along_of_trace hrun ht₂ (by simp)) hc'
  exact ⟨w, w₁, w₂, hw, hs, hrun, hc, hc', fun h => absurd (hsame.2 h) (by decide), hnew (by decide)⟩

end Scene

end BrokerClient
