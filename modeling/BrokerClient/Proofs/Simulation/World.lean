import BrokerClient.Proofs.Scene.Locking
import BrokerClient.Simulation.World

/-!
# Worlds and scenes

What happens in the world of a simulation happens in a scene; `Mirrors` says in which one. Turns of tasks are
moves of participants, and the acts within a turn are deeds. Queues, gates and the clock only settle whose turn
it is, which a scene leaves open. Hooks are acts of a factory around the connection; where there are none, the
scene can be one in which the connection opens all channels.
-/
namespace BrokerClient

namespace Scene

variable {α : Type} {w w' : Scene α} {P Q : Scene α → Prop}

/-- Some run leads to a scene with the property. -/
def Onward (w : Scene α) (P : Scene α → Prop) : Prop :=
  ∃ es w', w.run es = some w' ∧ P w'

theorem Onward.here (h : P w) : w.Onward P :=
  ⟨[], w, rfl, h⟩

theorem Onward.step {e : Event α} (hs : w.step e = some w') (h : P w') : w.Onward P := by
  refine ⟨[e], w', ?_, h⟩
  rw [run_cons_eq_some]
  exact ⟨w', hs, rfl⟩

theorem Onward.trans (h : w.Onward P) (hPQ : ∀ w', P w' → w'.Onward Q) : w.Onward Q := by
  obtain ⟨es, w₁, hr, hp⟩ := h
  obtain ⟨es', w₂, hr', hq⟩ := hPQ w₁ hp
  refine ⟨es ++ es', w₂, ?_, hq⟩
  rw [run_append, hr]
  exact hr'

theorem Onward.imp (h : w.Onward P) (hPQ : ∀ w', P w' → Q w') : w.Onward Q :=
  h.trans fun w' hp => .here (hPQ w' hp)

end Scene

namespace Client

theorem onChannel_of_unknown {c : Client} {id : ChannelId} (h : c.knows id = false)
    (f : Channel Listener → Channel Listener × Deliveries Listener) : c.onChannel id f = c := by
  have hn : c.connection.channel? id = none := by simpa [knows] using h
  simp only [onChannel, Connection.deliver, Connection.modify, hn, Option.getD_none, List.filterMap_nil,
    List.append_nil]

end Client

namespace Simulation

variable {α : Type} {w w' : World α} {sc : Scene (ChannelId × α)} {t : Task α} {i : InvocationId}
  {p q : Participant (ChannelId × α)} {hand : Option (Participant (ChannelId × α))} {c : Client} {direct : Bool}

/-! ## The state of a world -/

namespace World

theorem task?_putTask (w : World α) (t : Task α) (i : InvocationId) :
    (w.putTask t).task? i = if i = t.invocation.id then (w.task? i).map (fun _ => t) else w.task? i := by
  simp only [task?, putTask, List.getElem?_set']
  by_cases h : i = t.invocation.id
  · rw [if_pos h, if_pos (by rw [h])]
    rfl
  · have hn : t.invocation.id.number ≠ i.number := by
      intro hn
      apply h
      cases i
      cases hi : t.invocation.id
      simp_all
    rw [if_neg h, if_neg hn]

theorem gate_putGate (w : World α) (name name' : String) (g : Gate) :
    (w.putGate name g).gate name' = if name' = name then g else w.gate name' := by
  simp only [gate, putGate, Entries.get?_insert]
  split <;> rfl

/-- The same but for the queues, the clock and the trace. -/
structure Alike (w w' : World α) : Prop where
  client : w'.client = w.client
  names : w'.names = w.names
  hooks : w'.hooks = w.hooks
  tasks : w'.tasks = w.tasks
  gates : w'.gates = w.gates

theorem Alike.trans {w₁ : World α} (h : w.Alike w₁) (h' : w₁.Alike w') : w.Alike w' :=
  ⟨h'.client.trans h.client, h'.names.trans h.names, h'.hooks.trans h.hooks, h'.tasks.trans h.tasks,
    h'.gates.trans h.gates⟩

theorem alike_wake (w : World α) (i : InvocationId) : w.Alike (w.wake i) := by
  unfold wake
  split
  · exact ⟨rfl, rfl, rfl, rfl, rfl⟩
  · split <;> exact ⟨rfl, rfl, rfl, rfl, rfl⟩

theorem alike_wakeAll (w : World α) (is : List InvocationId) : w.Alike (w.wakeAll is) := by
  induction is generalizing w with
  | nil => exact ⟨rfl, rfl, rfl, rfl, rfl⟩
  | cons i is ih => exact (w.alike_wake i).trans (ih (w.wake i))

end World

/-! ## Mirrors -/

/-- The part of a task in a scene. -/
inductive Plays (c : Client) : Option (Task α) → Option (Participant (ChannelId × α)) → Prop where
  | nobody : Plays c none none
  | unbegun {t : Task α} (hs : t.invocation.supervisor.number < c.supervisors.length) (hsince : t.since = 0)
      (hpause : t.pause = .none) (ho : t.outcome = none) : Plays c (some t) none
  | underWay {t : Task α} (hsince : t.since ≠ 0) (ho : t.outcome = none) :
      Plays c (some t) (some ⟨t.invocation, .waiting⟩)
  | ended {t : Task α} {v : Invocation} {o : Outcome (ChannelId × α)} {time : Nat}
      (ho : t.outcome = some (o, time)) : Plays c (some t) (some ⟨v, .ended o⟩)

theorem Plays.mono {c' : Client} {t : Option (Task α)} {p : Option (Participant (ChannelId × α))}
    (h : Plays c t p) (hl : c.supervisors.length ≤ c'.supervisors.length) : Plays c' t p := by
  cases h with
  | nobody => exact .nobody
  | unbegun hs hsince hpause ho => exact .unbegun (Nat.lt_of_lt_of_le hs hl) hsince hpause ho
  | underWay hsince ho => exact .underWay hsince ho
  | ended ho => exact .ended ho

/-- What a task pauses for does not matter once it has begun. -/
theorem Plays.pause (h : Plays c (some t) (some p)) (pause : Pause) : Plays c (some { t with pause }) (some p) := by
  cases h with
  | underWay hsince ho => exact .underWay (t := { t with pause }) hsince ho
  | ended ho => exact .ended ho

/-- The task is within the acts around an opening. -/
def Errand.isHook : Errand α → Bool
  | .before _ _ | .after _ _ => true
  | .none | .call _ _ _ => false

/-- A scene in which the same has happened. The participant in hand has its turn; the others wait as their
tasks do. If the connection opens all channels, no acts go on around an opening and none are to come. -/
structure Mirrors (direct : Bool) (hand : Option (Participant (ChannelId × α))) (w : World α)
    (sc : Scene (ChannelId × α)) : Prop where
  reachable : sc.Reachable
  openings : sc.direct = direct
  hooks : direct = true → w.hooks = []
  errands : direct = true → ∀ i t, w.task? i = some t → t.errand.isHook = false
  client : sc.client = w.client
  names : ∀ name s, Entries.get? w.names name = some s → s.number < w.client.supervisors.length
  gates : ∀ name, ∀ i ∈ (w.gate name).waiting, (sc.participants i).isSome
  ids : ∀ i t, w.task? i = some t → t.invocation.id = i
  tasks : ∀ i, (∀ p ∈ hand, p.invocation.id ≠ i) → Plays w.client (w.task? i) (sc.participants i)
  inHand : ∀ p ∈ hand, sc.participants p.invocation.id = some p ∧ (w.task? p.invocation.id).isSome

namespace Mirrors

theorem alike (h : Mirrors direct hand w sc) (ha : w.Alike w') : Mirrors direct hand w' sc := by
  obtain ⟨hc, hn, hh, ht, hg⟩ := ha
  refine ⟨h.reachable, h.openings, ?_, ?_, ?_, ?_, ?_, ?_, ?_, ?_⟩
  · rw [hh]; exact h.hooks
  · simp only [World.task?, ht]; exact h.errands
  · rw [hc]; exact h.client
  · rw [hn, hc]; exact h.names
  · simp only [World.gate, hg]; exact h.gates
  · simp only [World.task?, ht]; exact h.ids
  · simp only [World.task?, ht, hc]; exact h.tasks
  · simp only [World.task?, ht]; exact h.inHand

/-- The supervisor of the participant in hand exists. -/
theorem known (h : Mirrors direct (some p) w sc) : p.invocation.supervisor.number < w.client.supervisors.length := by
  rw [← h.client]
  exact (h.reachable.known (h.inHand p rfl).1).supervisor

/-! ## Events -/

theorem deed {d : Deed} (h : Mirrors direct hand w sc)
    (hd : (direct && Scene.isForeign (α := ChannelId × α) (.deed d)) = false) (hp : w.client.perform? d = some c) :
    sc.Onward (Mirrors direct hand { w with client := c }) := by
  rw [← h.client] at hp
  have hs : sc.step (.deed d) = some { sc with client := c, trace := sc.trace ++ [.deed d] } := by
    simp only [Scene.step, h.openings, hd, hp]
    rfl
  have hl : w.client.supervisors.length ≤ c.supervisors.length := by
    rw [← h.client]
    exact (Scene.steps_of_step hs).grows.length
  refine .step hs { h with reachable := h.reachable.step hs, client := rfl, names := ?_, tasks := ?_ }
  · intro name s hn
    exact Nat.lt_of_lt_of_le (h.names name s hn) hl
  · intro i hi
    exact (h.tasks i hi).mono hl

/-- An event of the participant in hand, or of one that comes into hand. -/
theorem put {e : Event (ChannelId × α)} {ms : List (BrokerClient.Mark (ChannelId × α))} (h : Mirrors direct hand w sc)
    (hs : sc.step e = some (sc.put c q.invocation.id q ms)) (hq : (w.task? q.invocation.id).isSome)
    (hhand : ∀ p ∈ hand, p.invocation.id = q.invocation.id) :
    sc.Onward (Mirrors direct (some q) { w with client := c }) := by
  have hl : w.client.supervisors.length ≤ c.supervisors.length := by
    rw [← h.client]
    exact (Scene.steps_of_step hs).grows.length
  refine .step hs { h with
    reachable := h.reachable.step hs, client := rfl, names := ?_, gates := ?_, tasks := ?_, inHand := ?_ }
  · intro name s hn
    exact Nat.lt_of_lt_of_le (h.names name s hn) hl
  · intro name i hi
    simp only [Scene.put]
    split
    · rfl
    · exact h.gates name i hi
  · intro i hi
    have hne : q.invocation.id ≠ i := hi q rfl
    simp only [Scene.put, if_neg hne.symm]
    refine (h.tasks i fun p hp => ?_).mono hl
    rw [hhand p hp]
    exact hne
  · intro q' hq'
    cases hq'
    simp only [Scene.put, if_true]
    exact ⟨trivial, hq⟩

theorem move {m : Move (ChannelId × α)} (h : Mirrors direct (some p) w sc)
    (hd : (direct && Scene.isForeign (.move p.invocation.id m)) = false) (hm : w.client.move? p m = some (c, q)) :
    sc.Onward (Mirrors direct (some q) { w with client := c }) := by
  obtain ⟨hp, ht⟩ := h.inHand p rfl
  rw [← h.client] at hm
  have hq : q.invocation.id = p.invocation.id := (Client.leads_of_move? hm).same.1
  have hs := Scene.step_move (h.openings ▸ hd) hp hm
  rw [← hq] at hs ht
  refine h.put hs ht fun p' hp' => ?_
  cases hp'
  exact hq.symm

theorem begin (h : Mirrors direct none w sc) (ht : w.task? i = some t) (hp : sc.participants i = none)
    (hb : w.client.begin i t.invocation.supervisor t.invocation.token = (c, q)) :
    sc.Onward (Mirrors direct (some q) { w with client := c }) := by
  have hplays := h.tasks i (by simp)
  rw [ht, hp] at hplays
  cases hplays with
  | unbegun hsup =>
      have hq := w.client.begun (α := ChannelId × α) i t.invocation.supervisor t.invocation.token
      rw [hb] at hq
      have hid : q.invocation.id = i := by
        rw [hq.invocation]
        rfl
      rw [← h.client] at hsup hb
      have hs := Scene.step_begin (t := t.invocation.token) hsup hp
      rw [hb, ← hid] at hs
      exact h.put hs (by rw [hid, ht]; rfl) (by simp)

/-! ## Turns begin and end -/

theorem take (h : Mirrors direct none w sc) (ht : w.task? i = some t) (ho : t.outcome = none) (hs : t.since ≠ 0) :
    Mirrors direct (some ⟨t.invocation, .waiting⟩) w sc := by
  have hplays := h.tasks i (by simp)
  rw [ht] at hplays
  generalize hp : sc.participants i = p at hplays
  cases hplays with
  | unbegun hsup hsince => exact absurd hsince hs
  | ended ho' => rw [ho] at ho'; cases ho'
  | underWay =>
      refine { h with tasks := fun j _ => h.tasks j (by simp), inHand := ?_ }
      intro p hp'
      cases hp'
      simp only [h.ids i t ht]
      exact ⟨hp, by rw [ht]; rfl⟩

theorem ids_putTask (h : Mirrors direct hand w sc) (t : Task α) :
    ∀ i t', (w.putTask t).task? i = some t' → t'.invocation.id = i := by
  intro i t' ht'
  rw [World.task?_putTask] at ht'
  split at ht'
  · rename_i hi
    obtain ⟨-, -, rfl⟩ := Option.map_eq_some_iff.1 ht'
    exact hi.symm
  · exact h.ids i t' ht'

theorem errands_putTask (h : Mirrors direct hand w sc) (he : direct = true → t.errand.isHook = false) :
    direct = true → ∀ i t', (w.putTask t).task? i = some t' → t'.errand.isHook = false := by
  intro hd i t' ht'
  rw [World.task?_putTask] at ht'
  split at ht'
  · obtain ⟨-, -, rfl⟩ := Option.map_eq_some_iff.1 ht'
    exact he hd
  · exact h.errands hd i t' ht'

theorem putTask (h : Mirrors direct (some p) w sc) (hid : t.invocation.id = p.invocation.id)
    (hp : Plays w.client (some t) (some p)) (he : direct = true → t.errand.isHook = false) :
    Mirrors direct none (w.putTask t) sc := by
  obtain ⟨hpart, ht⟩ := h.inHand p rfl
  refine { h with errands := h.errands_putTask he, ids := h.ids_putTask t, tasks := ?_, inHand := by simp }
  intro i _
  rw [World.task?_putTask, hid]
  split
  · rename_i hi
    obtain ⟨t₀, ht₀⟩ := Option.isSome_iff_exists.1 ht
    rw [hi, ht₀, hpart]
    exact hp
  · rename_i hi
    apply h.tasks i
    intro p' hp'
    cases hp'
    exact fun hi' => hi hi'.symm

/-! ## Gates -/

theorem putGate {name : String} {g : Gate} (h : Mirrors direct hand w sc)
    (hg : ∀ i ∈ g.waiting, (sc.participants i).isSome) : Mirrors direct hand (w.putGate name g) sc := by
  refine { h with gates := ?_ }
  intro name' i hi
  rw [World.gate_putGate] at hi
  split at hi
  · exact hg i hi
  · exact h.gates name' i hi

theorem putPause {pause : Pause} (h : Mirrors direct hand w sc) (ht : w.task? i = some t)
    (hp : (sc.participants i).isSome) : Mirrors direct hand (w.putTask { t with pause }) sc := by
  have hid := h.ids i t ht
  refine { h with
    errands := h.errands_putTask fun hd => h.errands hd i t ht, ids := h.ids_putTask _, tasks := ?_, inHand := ?_ }
  · intro j hj
    have hplays := h.tasks j hj
    rw [World.task?_putTask, hid]
    split
    · rename_i hji
      subst hji
      obtain ⟨p, hp⟩ := Option.isSome_iff_exists.1 hp
      rw [ht, hp] at hplays ⊢
      exact hplays.pause pause
    · exact hplays
  · intro q hq
    obtain ⟨hqp, ht'⟩ := h.inHand q hq
    refine ⟨hqp, ?_⟩
    rw [World.task?_putTask]
    split
    · rw [Option.isSome_map]
      exact ht'
    · exact ht'

theorem openGate (h : Mirrors direct hand w sc) (name : String) : Mirrors direct hand (w.openGate name) sc := by
  have hg := h.gates name
  simp only [World.openGate]
  split
  · exact h.putGate hg
  · rename_i i rest hw
    rw [hw] at hg
    have h' : Mirrors direct hand (w.putGate name { w.gate name with waiting := rest }) sc :=
      h.putGate fun j hj => hg j (List.mem_cons_of_mem _ hj)
    refine Mirrors.alike ?_ (World.alike_wake _ i)
    split
    · rename_i t ht
      exact h'.putPause ht (hg i List.mem_cons_self)
    · exact h'

/-! ## Deeds -/

theorem dispose {s : SupervisorId} (h : Mirrors direct hand w sc) (hs : s.number < w.client.supervisors.length) :
    sc.Onward (Mirrors direct hand (w.dispose s)) := by
  simp only [World.dispose]
  split
  · exact .here h
  · have ha := w.alike_wakeAll (w.waiting (fun t => t.invocation.supervisor == s))
    apply (h.alike ha).deed (d := .dispose s) (Bool.and_false _)
    simp only [Client.perform?, ha.client, if_pos hs]

theorem disposeNamed (h : Mirrors direct hand w sc) (name : String) :
    sc.Onward (Mirrors direct hand (w.disposeNamed name)) := by
  simp only [World.disposeNamed]
  split
  · rename_i s hs
    exact h.dispose (h.names name s hs)
  · exact .here h

theorem cancel (h : Mirrors direct hand w sc) (token : Token) : sc.Onward (Mirrors direct hand (w.cancel token)) := by
  simp only [World.cancel]
  split
  · exact .here h
  · refine (h.deed (d := .cancel token) (Bool.and_false _) rfl).imp fun sc' h' => ?_
    exact h'.alike (World.alike_wakeAll _ _)

theorem forget {s : SupervisorId} (h : Mirrors direct hand w sc) (hs : s.number < w.client.supervisors.length) :
    sc.Onward (Mirrors direct hand (w.forget s)) := by
  simp only [World.forget]
  split
  · exact .here h
  · apply h.deed (d := .dispose s) (Bool.and_false _)
    simp only [Client.perform?, if_pos hs]

theorem raise (h : Mirrors direct hand w sc) (ch : ChannelId) (s : Signal) :
    sc.Onward (Mirrors direct hand { w with client := w.client.raise ch s }) := by
  cases hk : w.client.knows ch with
  | true =>
      apply h.deed (d := .signal ch s) (Bool.and_false _)
      simp only [Client.perform?, hk, if_true]
  | false =>
      rw [Client.raise, Client.onChannel_of_unknown hk]
      exact .here h

theorem close (h : Mirrors direct hand w sc) (ch : ChannelId) :
    sc.Onward (Mirrors direct hand { w with client := w.client.close ch }) := by
  cases hk : w.client.knows ch with
  | true =>
      apply h.deed (d := .close ch) (Bool.and_false _)
      simp only [Client.perform?, hk, if_true]
  | false =>
      rw [Client.close, Client.onChannel_of_unknown hk]
      exact .here h

theorem act (h : Mirrors direct (some p) w sc) (channel : Option ChannelId) (acts : List Act) :
    sc.Onward (Mirrors direct (some p) (w.act p.invocation.id channel acts).1) := by
  induction acts generalizing w sc with
  | nil => exact .here h
  | cons a acts ih =>
      cases a with
      | sleep ms =>
          simp only [World.act]
          split
          · exact ih h
          · exact .here (h.alike ⟨rfl, rfl, rfl, rfl, rfl⟩)
      | yield => exact .here (h.alike ⟨rfl, rfl, rfl, rfl, rfl⟩)
      | gate name =>
          simp only [World.act]
          split
          · exact ih (h.putGate (h.gates name))
          · refine .here (h.putGate fun i hi => ?_)
            rcases List.mem_append.1 hi with hi | hi
            · exact h.gates name i hi
            · rw [List.mem_singleton.1 hi, (h.inHand p rfl).1]
              rfl
      | dispose name => exact (h.disposeNamed name).trans fun _ h' => ih h'
      | cancel token => exact (h.cancel token).trans fun _ h' => ih h'
      | confirmSelect =>
          cases channel with
          | none => exact ih h
          | some ch =>
              simp only [World.act]
              cases hc : w.client.confirmSelect ch with
              | ok client =>
                  refine (h.deed (d := .confirmSelect ch) (Bool.and_false _) ?_).trans fun _ h' => ih h'
                  simp only [Client.perform?, hc]
                  rfl
              | error e => exact .here h
      | signal s =>
          cases channel with
          | none => exact ih h
          | some ch => exact (h.raise ch s).trans fun _ h' => ih h'
      | close =>
          cases channel with
          | none => exact ih h
          | some ch => exact (h.close ch).trans fun _ h' => ih h'

end Mirrors

end Simulation

end BrokerClient
