import BrokerClient.Proofs.Scene.Holding

/-!
# Disposals

A disposal is final: what it leaves (`Disposed`) is left in every state that follows, and no invocation of the
supervisor asks for a channel or calls its action any more (`Reachable.disposal_is_final`).
-/
namespace BrokerClient

/-- Whether an invocation needs a new channel or calls its action. -/
def Mark.asks {α : Type} (i : InvocationId) : Mark α → Bool
  | .opening j | .called j _ => j = i
  | _ => false

namespace Client

variable {α : Type} {c c' : Client} {s : SupervisorId} {v : Invocation} {m : Move α} {p q : Participant α}

/-! ## The disposal itself -/

theorem channel?_dispose {k : Held} (hd : c.isDisposed s = false) (hk : (c.supervisor s).held = some k) :
    (c.dispose s).connection.channel? k.channel = (c.connection.channel? k.channel).map (release k) := by
  have hheld : ((c.modify s ({ · with disposed := true })).supervisor s).held = some k := by
    rw [supervisor_modify]
    split <;> exact hk
  simp only [dispose, hd, Bool.false_eq_true, if_false, connection_record]
  rw [channel?_closeHeld hheld, if_pos rfl, connection_modify]

theorem dispose_of_isDisposed (hd : c.isDisposed s = true) : c.dispose s = c := by
  simp only [dispose, hd, if_true]

theorem state_of_isDisposed (hd : c.isDisposed s = true) : (c.supervisor s).state = .disposed := by
  have : (c.supervisor s).disposed = true := hd
  simp only [Supervisor.state, this, if_true]

theorem lt_of_isDisposed (hd : c.isDisposed s = true) : s.number < c.supervisors.length := by
  refine lt_of_supervisor_ne fun h => ?_
  rw [isDisposed, h] at hd
  cases hd

theorem interruption?_of_isDisposed (hd : c.isDisposed v.supervisor = true) :
    c.interruption? (α := α) v = some .aborted := by
  simp only [interruption?, hd, if_true]

/-- A channel that comes when its supervisor is disposed of is closed at once. -/
theorem channel?_opened_of_isDisposed {id : ChannelId} {ch : Channel Listener}
    (hd : c.isDisposed v.supervisor = true) (hn : (c.supervisor v.supervisor).held = none)
    (hc : c.connection.channel? id = some ch) :
    ∃ ch', (c.opened (α := α) v (.ok id)).1.connection.channel? id = some ch' ∧ ch'.isOpen = false ∧
      ch'.closeCalls = ch.closeCalls + 1 := by
  cases ha : c.attach v.supervisor id with
  | mk c₁ r =>
      cases r with
      | error e =>
          have hc₁ : c₁.connection.channel? id = some ch.close.1 := by
            rw [attach_error ha, channel?_close, if_pos rfl, hc]
            rfl
          have hn₁ : (c₁.supervisor v.supervisor).held = none := by rw [attach_error ha]; exact hn
          have hf : (c₁.failed v e).connection = c₁.connection := by
            unfold failed
            rw [closeHeld_of_none hn₁]
            simp only [ite_self]
            rfl
          refine ⟨ch.close.1, ?_, rfl, rfl⟩
          simp only [opened, ha]
          cases hr : c₁.verdict v e |>.rethrows with
          | true => rw [fail_of_rethrows hr, left, connection_modify, hf, hc₁]
          | false => rw [fail_of_suppresses hr, hf, hc₁]
      | ok u =>
          obtain ⟨ch₁, hat⟩ := attach_ok ha
          have hch := hat.channels
          have hd₁ : c₁.isDisposed v.supervisor = true := by rw [(Keeps.attach ha).disposed]; exact hd
          have hheld : (c₁.supervisor v.supervisor).held = some (handles ch₁) := by
            rw [hat.supervisor, if_pos ⟨rfl, lt_of_isDisposed hd⟩]
          have hid : (handles ch₁).channel = id := Connection.id_of_channel? hat.known
          have hknown := hat.known
          rw [hc] at hknown
          cases hknown
          simp only [opened, ha, hd₁, if_true, finish_eq, left, connection_modify]
          rw [channel?_closeHeld hheld, hid, if_pos rfl, hch, if_pos rfl]
          exact ⟨_, rfl, rfl, rfl⟩

end Client

namespace Scene

variable {α : Type} {w w' : Scene α} {e : Event α} {i : InvocationId} {p q : Participant α} {s : SupervisorId}

/-! ## Marks of the disposed -/

theorem asks_of_isOf {k : Mark α} (h : k.isOf i = false) : k.asks i = false := by
  cases k with
  | deed | began | attempted | ended => rfl
  | opening | called => exact h

theorem asks_marks_of_isDisposed {c : Client} {v : Invocation} {m : Move α}
    (hd : w.client.isDisposed v.supervisor = true) (h : w.client.Leads v m (w.client.attempted? v m) c q) :
    ∀ k ∈ marks w.client v m q, k.asks v.id = false := by
  by_cases hm : m = .rest
  · subst hm
    intro k hk
    cases hk
  · rw [marks_of_ne_rest hm]
    intro k hk
    rcases List.mem_append.1 hk with hk | hk
    · obtain ⟨a, -, rfl⟩ := Option.map_eq_some_iff.1 (Option.mem_toList.1 hk)
      rfl
    · have hi := Client.interruption?_of_isDisposed (α := α) hd
      generalize w.client.attempted? v m = a at h
      cases h with
      | looked _ _ hi' | unheld _ hi' | discards _ hi' | reuses _ hi' => rw [hi] at hi'; cases hi'
      | rested h => exact absurd h hm
      | attaches _ ho ha hd' =>
          rw [(ho.keeps.trans (.attach ha)).disposed, hd] at hd'
          cases hd'
      | givenUp | orphans | throws | succeeds =>
          simp only [Participant.reached, List.mem_singleton] at hk
          subst hk
          rfl
      | suppresses => cases hk

/-- A step adds no mark by which an invocation of a disposed supervisor asks for anything. -/
theorem Steps.asks_of_isDisposed (h : w.Steps e w') (hr : w.Reachable) (hd : w.client.isDisposed s = true)
    (hs : ∀ p, w.participants i = some p → p.invocation.supervisor = s)
    (hs' : ∀ p, w'.participants i = some p → p.invocation.supervisor = s) :
    ∃ ms, w'.trace = w.trace ++ ms ∧ ∀ k ∈ ms, k.asks i = false := by
  cases h with
  | deed => exact ⟨_, rfl, by simp [Mark.asks]⟩
  | @begin j s' t c q hl hj hb =>
      refine ⟨_, rfl, fun k hk => ?_⟩
      rcases List.mem_cons.1 hk with rfl | hk
      · rfl
      · by_cases hij : i = j
        · have hsup := hs' q (by simp only [put, if_pos hij])
          rw [hb.invocation] at hsup
          change s' = s at hsup
          subst hsup
          cases hb with
          | late =>
              simp only [Participant.reached, List.mem_singleton] at hk
              subst hk
              rfl
          | cancelled hd' | joins hd' => exact absurd (hd.symm.trans hd') (by simp)
        · apply asks_of_isOf
          rw [isOf_reached hk, hb.invocation]
          exact decide_eq_false (Ne.symm hij)
  | @move j m p q c hf hj hm =>
      have hm := Client.leads_of_move? hm
      refine ⟨_, rfl, fun k hk => ?_⟩
      by_cases hij : i = j
      · subst hij
        have hsup := hs p hj
        have hid := (hr.known hj).id
        have := asks_marks_of_isDisposed (hsup ▸ hd) hm k hk
        rwa [hid] at this
      · apply asks_of_isOf
        rw [isOf_marks hm.same.1 hk, (hr.known hj).id]
        exact decide_eq_false (Ne.symm hij)

theorem isDisposed_of_run {es : List (Event α)} (hrun : w.run es = some w') (hd : w.client.isDisposed s = true) :
    w'.client.isDisposed s = true := by
  induction es generalizing w with
  | nil => cases hrun; exact hd
  | cons e es ih =>
      obtain ⟨w₁, hs, hrun⟩ := run_cons_eq_some.1 hrun
      exact ih hrun ((steps_of_step hs).grows.disposed s hd)

theorem Reachable.asks_of_isDisposed {es : List (Event α)} (h : w.Reachable) (hd : w.client.isDisposed s = true)
    (hrun : w.run es = some w') :
    ∃ ms, w'.trace = w.trace ++ ms ∧
      ∀ i p, w'.participants i = some p → p.invocation.supervisor = s → ∀ k ∈ ms, k.asks i = false := by
  induction es generalizing w with
  | nil => cases hrun; exact ⟨[], by simp, by simp⟩
  | cons e es ih =>
      obtain ⟨w₁, hs, hrun⟩ := run_cons_eq_some.1 hrun
      have hsteps := steps_of_step hs
      obtain ⟨ms₂, ht₂, hasks₂⟩ := ih (h.step hs) (hsteps.grows.disposed s hd) hrun
      obtain ⟨ms₁, ht₁⟩ := hsteps.trace
      refine ⟨ms₁ ++ ms₂, by rw [ht₂, ht₁, List.append_assoc], fun i p hp hsup k hk => ?_⟩
      have hmine {w₀ : Scene α} {es₀ : List (Event α)} (hrun₀ : w₀.run es₀ = some w') :
          ∀ p₀, w₀.participants i = some p₀ → p₀.invocation.supervisor = s := by
        intro p₀ hp₀
        obtain ⟨p', hp', hsup', -⟩ := persists_of_run hrun₀ hp₀
        rw [hp] at hp'
        cases hp'
        exact hsup'.symm.trans hsup
      rcases List.mem_append.1 hk with hk | hk
      · obtain ⟨ms, ht, hasks⟩ := hsteps.asks_of_isDisposed (i := i) h hd
          (hmine (run_cons_eq_some.2 ⟨w₁, hs, hrun⟩)) (hmine hrun)
        rw [ht₁, List.append_cancel_left_eq] at ht
        exact hasks k (ht ▸ hk)
      · exact hasks₂ i p hp hsup k hk

/-! ## What a disposal leaves -/

/-- A supervisor after its disposal, and what becomes of its invocations. -/
structure Disposed (w : Scene α) (s : SupervisorId) : Prop where
  state : (w.client.supervisor s).state = .disposed
  held : (w.client.supervisor s).held = none
  again : w.step (.deed (.dispose s)) = some { w with trace := w.trace ++ [.deed (.dispose s)] }
  waiting : ∀ i p, w.participants i = some p → p.invocation.supervisor = s → p.phase = .waiting →
    (∃ m w', w.step (.move i m) = some w') ∧
    ∀ m w', w.step (.move i m) = some w' → w'.participants i = some { p with phase := .ended .aborted }
  late : ∀ i t, w.participants i = none → ∃ w' p, w.step (.begin i s t) = some w' ∧
    w'.participants i = some p ∧ p.phase = .ended .disposed
  returned : ∀ i p m w' c₀ id ch, w.participants i = some p → p.invocation.supervisor = s →
    w.step (.move i m) = some w' → w.client.Opens m c₀ (.ok id) → c₀.connection.channel? id = some ch →
    ∃ ch', w'.client.connection.channel? id = some ch' ∧ ch'.isOpen = false ∧ ch'.closeCalls = ch.closeCalls + 1

theorem Reachable.disposed (h : w.Reachable) (hd : w.client.isDisposed s = true) : w.Disposed s where
  state := Client.state_of_isDisposed hd
  held := h.held_of_disposed hd
  again := by
    simp only [Scene.step, isForeign, Bool.and_false, Bool.false_eq_true, if_false, Client.perform?,
      if_pos (Client.lt_of_isDisposed hd), Client.dispose_of_isDisposed hd, Option.map_some]
  waiting i p hp hs hw := by
    have hi := Client.interruption?_of_isDisposed (α := α) (v := p.invocation) (hs ▸ hd)
    constructor
    · obtain ⟨m, hm, hmove⟩ := Client.exists_move?_of_interrupted hw hi
      have hf : isForeign (.move i m) = false := by rcases hm with rfl | rfl <;> rfl
      exact ⟨m, _, step_move (by rw [hf, Bool.and_false]) hp hmove⟩
    · intro m w' hstep
      obtain ⟨c, q, hm, rfl⟩ := move_of_step hstep hp
      obtain ⟨-, -, rfl⟩ := Client.move?_of_interrupted hw hi hm
      simp only [put, if_true]
  late i t hi := by
    have hb : w.client.begin (α := α) i s t = (w.client, ⟨w.client.fresh i s t, .ended .disposed⟩) := by
      simp only [Client.begin, Client.invoke, hd, if_true]
      rfl
    have hstep := step_begin (t := t) (Client.lt_of_isDisposed hd) hi
    rw [hb] at hstep
    exact ⟨_, _, hstep, if_pos rfl, rfl⟩
  returned i p m w' c₀ id ch hp hs hstep ho hc := by
    obtain ⟨c, q, hm, rfl⟩ := move_of_step hstep hp
    obtain ⟨hstage, heq⟩ := Client.move?_of_opens ho hm
    have hn := Client.phase_of_move? hm
    have hd₀ : c₀.isDisposed p.invocation.supervisor = true := by rw [ho.keeps.disposed, hs]; exact hd
    have hn₀ : (c₀.supervisor p.invocation.supervisor).held = none := by
      rw [ho.supervisor]
      exact h.held_of_opening hp hn hstage
    obtain ⟨ch', hc', hclosed, hcount⟩ := Client.channel?_opened_of_isDisposed (α := α) hd₀ hn₀ hc
    refine ⟨ch', ?_, hclosed, hcount⟩
    rw [← hc', show c = (Client.after p.invocation (c₀.opened p.invocation (.ok id))).1 from congrArg Prod.fst heq]
    cases c₀.opened (α := α) p.invocation (.ok id) with
    | mk c₁ r => cases r <;> rfl

/-- A disposal closes and detaches the held channel. In every state that follows the supervisor is disposed of and
holds nothing, its waiting invocations end at their next move, and none of its invocations has asked for a channel
or called its action since. -/
theorem Reachable.disposal_is_final (h : w.Reachable) (hs : w.step (.deed (.dispose s)) = some w') :
    (∀ k, (w.client.supervisor s).held = some k → ∃ ch, w.client.connection.channel? k.channel = some ch ∧
      w'.client.connection.channel? k.channel = some (Client.release k ch)) ∧
    ∀ es w'', w'.run es = some w'' → w''.Disposed s ∧
      ∃ ms, w''.trace = w'.trace ++ ms ∧
        ∀ i p, w''.participants i = some p → p.invocation.supervisor = s → ∀ k ∈ ms, k.asks i = false := by
  have hr' := h.step hs
  have hsteps := steps_of_step hs
  have hd' : w'.client.isDisposed s = true := (hr'.disposed_iff s).2 ((hsteps.deed_mem_trace _).2 (.inr rfl))
  constructor
  · intro k hk
    obtain ⟨ch, hc, -⟩ := h.held_confirms hk
    refine ⟨ch, hc, ?_⟩
    have hd : w.client.isDisposed s = false := by
      refine eq_false_of_ne_true fun hd => ?_
      rw [h.held_of_disposed hd] at hk
      cases hk
    cases hsteps with
    | deed hf hp =>
        simp only [Client.perform?] at hp
        split at hp
        · cases hp
          exact (Client.channel?_dispose hd hk).trans (by rw [hc]; rfl)
        · cases hp
  · intro es w'' hrun
    exact ⟨(hr'.run hrun).disposed (isDisposed_of_run hrun hd'), hr'.asks_of_isDisposed hd' hrun⟩

/-- An action runs and another invocation waits for the lock. -/
def busy : List (Event Nat) :=
  [.deed (.supervise {}), .begin ⟨0⟩ ⟨0⟩ none, .move ⟨0⟩ .enter, .move ⟨0⟩ .look, .move ⟨0⟩ .opens,
    .begin ⟨1⟩ ⟨0⟩ (some ⟨"t"⟩)]

theorem disposal_is_final_busy : ∃ w w' w'' ch, (start true true).run busy = some w ∧
    w.step (.deed (.dispose ⟨0⟩)) = some w' ∧
    w'.client.connection.channel? ⟨1⟩ = some (Client.release ⟨⟨1⟩, ⟨2⟩, ⟨1⟩⟩ ch) ∧
    w'.run [.deed (.cancel ⟨"t"⟩), .move ⟨1⟩ .enter, .move ⟨0⟩ .look] = some w'' ∧ w''.Disposed ⟨0⟩ := by
  obtain ⟨w, hw⟩ := Option.isSome_iff_exists.1 (rfl : ((start true true).run busy).isSome = true)
  obtain ⟨w', hw'⟩ := Option.isSome_iff_exists.1
    (map_of_run (fun w => (w.step (.deed (.dispose ⟨0⟩))).isSome) hw rfl : _ = true)
  obtain ⟨w'', hw''⟩ := Option.isSome_iff_exists.1
    (map_of_run (fun w => ((w.step (.deed (.dispose ⟨0⟩))).bind
      (·.run [.deed (.cancel ⟨"t"⟩), .move ⟨1⟩ .enter, .move ⟨0⟩ .look])).isSome) hw rfl : _ = true)
  rw [hw', Option.bind_some] at hw''
  have hk : (w.client.supervisor ⟨0⟩).held = some ⟨⟨1⟩, ⟨2⟩, ⟨1⟩⟩ :=
    map_of_run (·.client.supervisor ⟨0⟩ |>.held) hw rfl
  obtain ⟨hheld, hlater⟩ := ((Reachable.start true true).run hw).disposal_is_final hw'
  obtain ⟨ch, -, hc⟩ := hheld _ hk
  exact ⟨w, w', w'', ch, hw, hw', hc, hw'', (hlater _ w'' hw'').1⟩

end Scene

end BrokerClient
