import BrokerClient.Proofs.Scene.History

/-!
# What supervisors hear

What the supervisors of a client make known along a run is what the ledger of its history says (`heard_while_held`):
each signal that is raised on a channel while they hold it, and a shutdown for each close of a channel that is open
while they hold it.
-/
namespace BrokerClient

/-- The act of a visitor that a mark tells of. -/
def Mark.act? {α : Type} : Mark α → Option (ChannelId × Act)
  | .deed (.signal id g) => some (id, .raised g)
  | .deed (.close id) => some (id, .closed)
  | _ => none

namespace Scene

variable {α : Type} {w w' : Scene α} {e : Event α}

/-! ## Runs -/

def acts (w : Scene α) : Event α → History
  | .deed d => .ofDeed w.client d
  | .begin _ _ _ => []
  | .move i m =>
    match w.participants i with
    | some p => .ofMove w.client p.invocation m
    | none => []

/-- What is done to the channels of a client along a run. -/
def history (w : Scene α) : List (Event α) → History
  | [] => []
  | e :: es =>
    w.acts e ++
      match w.step e with
      | some w' => w'.history es
      | none => []

/-- What relates clients by the history of each step relates them by that of a run. -/
theorem related_of_run {New : Client → ChannelId → Prop} {R : Client → History → Client → Prop} {direct : Bool}
    {es : List (Event α)} (hk : Client.Composes New R)
    (hstep : ∀ {w w' : Scene α} {e : Event α}, w.Reachable → w.direct = direct → w.step e = some w' →
      R w.client (w.acts e) w'.client)
    (hr : w.Reachable) (hd : w.direct = direct) (h : w.run es = some w') : R w.client (w.history es) w'.client := by
  induction es generalizing w with
  | nil => cases h; exact hk.refl _
  | cons e es ih =>
      obtain ⟨w₁, hs, h⟩ := run_cons_eq_some.1 h
      simp only [history, hs]
      exact hk.trans (hstep hr hd hs) (ih (hr.step hs) ((steps_of_step hs).direct.trans hd) h)

theorem follows_of_step (hr : w.Reachable) (h : w.step e = some w') : w.client.Follows (w.acts e) w'.client := by
  cases steps_of_step h with
  | deed hf hd => exact .perform? hd
  | begin hs hi hb => exact .begun hb
  | move hf hi hm =>
      simp only [acts, hi]
      exact .move? hm (hr.known hi).supervisor (hr.held_of_opening hi (Client.phase_of_move? hm))

theorem follows_of_run {es : List (Event α)} (hr : w.Reachable) (h : w.run es = some w') :
    w.client.Follows (w.history es) w'.client :=
  related_of_run Client.Follows.composes (fun hr _ hs => follows_of_step hr hs) hr rfl h

theorem visits_of_step (h : w.step e = some w') :
    w'.trace.filterMap Mark.act? = w.trace.filterMap Mark.act? ++ (w.acts e).filter History.isVisit := by
  have hnone {ms : List (Mark α)} (hd : ∀ d, .deed d ∉ ms) : ms.filterMap Mark.act? = [] := by
    apply List.filterMap_eq_nil_iff.2
    intro k hk
    cases k with
    | deed d => exact absurd hk (hd d)
    | began | opening | called | attempted | ended => rfl
  cases steps_of_step h with
  | @deed d c hf hd =>
      simp only [List.filterMap_append, acts]
      congr 1
      cases d with
      | dispose s =>
          refine (List.filter_eq_nil_iff.2 fun x hx => ?_).symm
          simp only [History.ofDeed] at hx
          split at hx
          · cases hx
          · obtain ⟨id, rfl⟩ := History.released_of_mem_ofRelease hx
            simp [History.isVisit]
      | _ => rfl
  | @begin i s t c p hs hi hb =>
      have hd : ∀ d, .deed d ∉ .began i s t :: p.reached := by simp [deed_mem_reached]
      simp only [put, List.filterMap_append, acts, List.filter_nil]
      rw [hnone hd]
  | move hf hi hm =>
      simp only [put, List.filterMap_append, acts, hi]
      rw [hnone (fun _ => deed_mem_marks), List.filter_eq_nil_iff.2 fun x hx => by
        simp [History.not_visit_of_mem_ofMove hx]]

theorem visits_of_run {es : List (Event α)} (h : w.run es = some w') :
    w'.trace.filterMap Mark.act? = w.trace.filterMap Mark.act? ++ (w.history es).filter History.isVisit := by
  induction es generalizing w with
  | nil => cases h; exact (List.append_nil _).symm
  | cons e es ih =>
      obtain ⟨w₁, hs, h⟩ := run_cons_eq_some.1 h
      rw [ih h, visits_of_step hs]
      simp only [history, hs, List.filter_append, List.append_assoc]

theorem refusesNew_of_step {r : Ledger} (hd : w.direct = true) (hm : w.client.Matches r) (h : w.step e = some w') :
    History.RefusesNew r (w.acts e) := by
  cases steps_of_step h with
  | @deed d c hf hp =>
      refine .of_not_mem fun id s hin => ?_
      cases d with
      | dispose s =>
          simp only [acts, History.ofDeed] at hin
          split at hin
          · cases hin
          · obtain ⟨j, hj⟩ := History.released_of_mem_ofRelease hin
            cases hj
      | signal | close => cases List.mem_singleton.1 hin
      | _ => cases hin
  | begin hs hi hb => exact .of_not_mem fun id s hin => by cases hin
  | @move i m p q c hf hi hmove =>
      simp only [acts, hi]
      cases m with
      | enter =>
          refine .of_not_mem fun id s hin => ?_
          obtain ⟨j, hj⟩ := History.released_of_mem_ofAttempt hin
          cases hj
      | look | rest => exact .of_not_mem fun id s hin => by cases hin
      | opens =>
          intro h₁ id s h₂ heq
          obtain ⟨rfl, hok⟩ := History.refused_of_ofOpened heq
          exact hm.unknown id (Client.channel?_openChannel hm.numbered hok).1
      | answer a =>
          refine .of_not_mem fun id s hin => ?_
          simp only [History.ofMove, History.ofAnswer] at hin
          split at hin
          · rw [hd] at hf
            cases hf
          · obtain ⟨j, hj⟩ := History.released_of_mem_ofFailure hin
            cases hj
          · obtain ⟨j, hj⟩ := History.released_of_mem_ofAttempt hin
            cases hj
          · cases hin

theorem refusesNew_of_run {r : Ledger} {es : List (Event α)} (hr : w.Reachable) (hd : w.direct = true)
    (hm : w.client.Matches r) (h : w.run es = some w') : History.RefusesNew r (w.history es) := by
  induction es generalizing w r with
  | nil => exact .of_not_mem fun id s hin => by cases hin
  | cons e es ih =>
      obtain ⟨w₁, hs, h⟩ := run_cons_eq_some.1 h
      simp only [history, hs]
      exact (refusesNew_of_step hd hm hs).append
        (ih (hr.step hs) ((steps_of_step hs).direct.trans hd) (follows_of_step hr hs r hm) h)

/-- A history tells of all that visitors do to channels, of the channels and of those who hold them; the events are what
they hear. Where the connection opens all channels, no channel has two holders, and a channel that is refused is new. -/
structure Accounts (w : Scene α) (h : History) : Prop where
  visits : w.trace.filterMap Mark.act? = h.filter History.isVisit
  events : w.client.events = (Ledger.ofHistory h).events
  channels : ∀ id ch, w.client.connection.channel? id = some ch →
    ch.isOpen = ((Ledger.ofHistory h).standing id).isOpen ∧ ch.closeCalls = ((Ledger.ofHistory h).standing id).closes
  holders : ∀ id s b, (s, b) ∈ ((Ledger.ofHistory h).standing id).holders ↔
    (w.client.supervisor s).channel? = some id ∧ (w.client.supervisor s).options.confirms = b
  once : ∀ id, ((Ledger.ofHistory h).standing id).holders.Nodup
  alone : w.direct = true → ∀ id, ((Ledger.ofHistory h).standing id).holders.length ≤ 1
  refused : w.direct = true → History.RefusesNew {} h

/-- Where the connection opens all channels, nobody holds a channel with another one. -/
theorem Reachable.length_holders {r : Ledger} (h : w.Reachable) (hd : w.direct = true) (hm : w.client.Matches r)
    (id : ChannelId) : (r.standing id).holders.length ≤ 1 := by
  match hl : (r.standing id).holders with
  | [] => exact Nat.zero_le 1
  | [_] => exact Nat.le_refl 1
  | (s, b) :: (s', b') :: rest =>
      have hx : (s, b) ∈ (r.standing id).holders := by simp [hl]
      have hy : (s', b') ∈ (r.standing id).holders := by simp [hl]
      obtain ⟨hs, rfl⟩ := (hm.holders id s b).1 hx
      obtain ⟨hs', rfl⟩ := (hm.holders id s' b').1 hy
      obtain ⟨k, hk, hid⟩ := Option.map_eq_some_iff.1 hs
      obtain ⟨k', hk', hid'⟩ := Option.map_eq_some_iff.1 hs'
      obtain rfl := (h.custody hd).exclusive s s' k k' hk hk' (hid.trans hid'.symm)
      have hnodup := hm.once id
      rw [hl] at hnodup
      simp at hnodup

/-- The supervisors of a client make known what they hear of the channels that they hold, in order and nothing else. -/
theorem heard_while_held {recoverable direct : Bool} {es : List (Event α)}
    (hrun : (start recoverable direct).run es = some w) :
    w.Accounts ((start (α := α) recoverable direct).history es) := by
  have hr := Reachable.start (α := α) recoverable direct
  have hm := follows_of_run hr hrun _ (.start recoverable)
  refine ⟨visits_of_run hrun, hm.events, fun id ch hc => ⟨(hm.shows id ch hc).isOpen, (hm.shows id ch hc).closes⟩,
    hm.holders, hm.once, fun hd => (hr.run hrun).length_holders hd hm,
    fun hd => refusesNew_of_run hr ((direct_of_run hrun).symm.trans hd) (.start recoverable) hrun⟩

/-- The first channel confirms, shuts down, recovers and is discarded open; what is raised on it then is lost. The
second one is closed twice before its supervisor is disposed of. -/
def signalled : List (Event Nat) :=
  [.deed (.supervise { confirms := true }), .begin ⟨0⟩ ⟨0⟩ none, .move ⟨0⟩ .enter, .move ⟨0⟩ .look, .move ⟨0⟩ .opens,
    .move ⟨0⟩ .look, .deed (.signal ⟨1⟩ (.ack 7 true)), .deed (.signal ⟨1⟩ (.shutdown ⟨.peer, 541, "internal"⟩)),
    .deed (.signal ⟨1⟩ .recovery), .move ⟨0⟩ (.answer (.acted (.error (.interrupted (some ⟨.peer, 541, "internal"⟩))))),
    .deed (.signal ⟨1⟩ (.ack 8 false)), .move ⟨0⟩ .look, .move ⟨0⟩ (.answer .elapsed), .move ⟨0⟩ .look,
    .move ⟨0⟩ .opens, .deed (.signal ⟨2⟩ (.nack 9 false)), .deed (.close ⟨2⟩), .deed (.close ⟨2⟩), .deed (.dispose ⟨0⟩)]

theorem heard_while_held_signalled : ∃ w, (start true true).run signalled = some w ∧
    w.Accounts ((start true true).history signalled) ∧
    w.client.events = [⟨⟨1⟩, .confirmation 7 true false⟩, ⟨⟨1⟩, .shutdown (some ⟨.peer, 541, "internal"⟩)⟩,
      ⟨⟨1⟩, .recovered⟩, ⟨⟨1⟩, .shutdown (some .goodbye)⟩, ⟨⟨2⟩, .confirmation 9 false true⟩,
      ⟨⟨2⟩, .shutdown (some .goodbye)⟩] := by
  obtain ⟨w, hw⟩ := Option.isSome_iff_exists.1 (rfl : ((start true true).run signalled).isSome = true)
  have ha := heard_while_held hw
  exact ⟨w, hw, ha, ha.events.trans rfl⟩

end Scene

end BrokerClient
