import BrokerClient.Proofs.Scene.Continuity
import BrokerClient.Proofs.Scene.Hearing
import BrokerClient.Proofs.Text.Decimal
import Mathlib.Data.Finset.Card
import Mathlib.Data.List.Forall2

/-!
# What the log accounts for

The log of a client is read in three ways (`log_accounts`). The records that name a channel tell whether it is held, and
tell it once (`Client.story`). The reports of failures are those of the attempts that failed, one for each and in the
same order (`Client.reports`). And there is one record for each supervisor that was disposed of (`Client.disposals`).

Stories follow the ledger of a history (`Client.Chronicles`). Where the connection opens all channels, one that is
attached is new, and nothing was told of it before. Of the other records an operation adds those that `Client.Logs`
names, and beside them none that reports a failure or tells of a disposal.
-/
namespace BrokerClient

theorem ChannelId.text_inj {id id' : ChannelId} : id.text = id'.text ↔ id = id' := by
  cases id
  cases id'
  rw [text, text, Text.toString_inj, mk.injEq]

/-! ## Readings of the log -/

/-- What a record tells of the custody of a channel. -/
inductive Entry where
  | created
  | closed
deriving DecidableEq

def Log.Record.entry? (id : ChannelId) (r : Log.Record) : Option Entry :=
  if r.fields.lookup "channel" = some id.text then
    if r.message = "persistent channel created" then some .created
    else if r.message = "persistent channel closed" then some .closed
    else none
  else none

/-- The report of a failed attempt, with the delay after which another one follows, if it does. -/
def Verdict.report (k : Verdict) (attempt : UInt32) (f : TransportError) : Option Duration → Log.Record
  | none => ⟨.debug, "channel action failed",
      [("attempt", toString attempt.toNat), ("error", f.message), ("verdict", k.name)]⟩
  | some d => ⟨.warn, "channel action failed, retrying",
      [("attempt", toString attempt.toNat), ("error", f.message), ("verdict", k.name), ("delay", d.text)]⟩

def Log.Record.farewell : Log.Record :=
  ⟨.info, "persistent channel disposed", []⟩

def Attempt.failure? {α : Type} (a : Attempt α) : Option TransportError :=
  match a.result with
  | .ok _ => none
  | .error f => some f

def Mark.failure? {α : Type} : Mark α → Option (InvocationId × TransportError)
  | .attempted i a => a.failure?.map (i, ·)
  | _ => none

def Mark.disposed? {α : Type} : Mark α → Option SupervisorId
  | .deed (.dispose s) => some s
  | _ => none

namespace Client

/-- What the log tells of the custody of a channel. -/
def story (c : Client) (id : ChannelId) : List Entry :=
  c.log.filterMap (Log.Record.entry? id)

def isReport (r : Log.Record) : Bool :=
  r.message = "channel action failed" || r.message = "channel action failed, retrying"

def isDisposal (r : Log.Record) : Bool :=
  r.message = "persistent channel disposed"

/-- What the log tells of failed attempts. -/
def reports (c : Client) : List Log.Record :=
  c.log.filter isReport

/-- What the log tells of disposals. -/
def disposals (c : Client) : List Log.Record :=
  c.log.filter isDisposal

end Client

/-! ## Stories of channels -/

/-- The custody of a channel as it stands, told in full. -/
inductive Standing.Told (k : Standing) : List Entry → Prop where
  | untold (hk : k.holders = []) : Told k []
  | held {x : SupervisorId × Bool} (hk : k.holders = [x]) : Told k [.created]
  | released (hk : k.holders = []) (hc : 0 < k.closes) : Told k [.created, .closed]

namespace Standing.Told

variable {k k' : Standing} {l : List Entry}

theorem of_holders (h : k.Told l) (hk : k'.holders = k.holders) (hc : k.closes ≤ k'.closes) : k'.Told l := by
  cases h with
  | untold h => exact .untold (hk.trans h)
  | held h => exact .held (hk.trans h)
  | released h hpos => exact .released (hk.trans h) (Nat.lt_of_lt_of_le hpos hc)

theorem cases_eq (h : k.Told l) : l = [] ∨ l = [.created] ∨ l = [.created, .closed] := by
  cases h <;> simp

theorem eq_created_iff (h : k.Told l) : l = [.created] ↔ ∃ x, x ∈ k.holders := by
  cases h with
  | untold hk | released hk | held hk => simp [hk]

/-- Only who takes or lets go of the channel has something to tell. -/
theorem enter {r : Ledger} {j : ChannelId} {x : ChannelId × Act} (h : (r.standing j).Told l)
    (hh : ∀ s b, x.2 ≠ .held s b) (hr : ∀ s, x.2 ≠ .released s) : ((r.enter x).standing j).Told l := by
  obtain ⟨id, a⟩ := x
  simp only [Ledger.enter]
  split
  · rename_i hj
    subst hj
    cases a with
    | held s b => exact absurd rfl (hh s b)
    | released s => exact absurd rfl (hr s)
    | refused | closed => exact h.of_holders rfl (Nat.le_succ _)
    | raised g => cases g <;> exact h.of_holders rfl (Nat.le_refl _)
  · exact h

end Standing.Told

namespace Client

variable {α : Type} {c c' c'' : Client} {h : History} {r : Ledger} {s : SupervisorId} {id : ChannelId} {v : Invocation}
  {m : Move α} {q : Participant α} {notes : List Log.Record}

theorem entry?_of_not_custody {x : Log.Record} (h : isCustody x = false) (id : ChannelId) : x.entry? id = none := by
  rw [isCustody, Bool.or_eq_false_iff, decide_eq_false_iff_not, decide_eq_false_iff_not] at h
  simp only [Log.Record.entry?, if_neg h.1, if_neg h.2, ite_self]

theorem entry?_of_channel {x : Log.Record} {fields : List (String × String)}
    (hx : x.fields = ("channel", id.text) :: fields) (j : ChannelId) : x.entry? j =
      if j = id then
        if x.message = "persistent channel created" then some .created
        else if x.message = "persistent channel closed" then some .closed
        else none
      else none := by
  have hlookup : x.fields.lookup "channel" = some id.text := by
    rw [hx]
    rfl
  simp only [Log.Record.entry?, hlookup, Option.some.injEq, ChannelId.text_inj, eq_comm (a := id)]

theorem story_of_log {rs : List Log.Record} (hl : c'.log = c.log ++ rs) (id : ChannelId) :
    c'.story id = c.story id ++ rs.filterMap (Log.Record.entry? id) := by
  rw [story, hl, List.filterMap_append, story]

theorem story_record {x : Log.Record} (hx : isCustody x = false) (id : ChannelId) :
    (c.record x).story id = c.story id := by
  have hl : (c.record x).log = c.log ++ [x] := rfl
  rw [story_of_log hl, List.filterMap_cons_none (entry?_of_not_custody hx id), List.filterMap_nil, List.append_nil]

/-! ## Records of single operations -/

theorem log_closeHeld {k : Held} (hk : (c.supervisor s).held = some k) : (c.closeHeld s).log =
    c.log ++ [⟨.debug, "persistent channel closed", [("channel", k.channel.text)]⟩] := by
  simp only [closeHeld, hk]
  rfl

theorem log_attach (ha : c.attach s id = (c', .ok ())) : ∃ confirms, c'.log = c.log ++
    [⟨.debug, "persistent channel created", [("channel", id.text), ("publisher_confirms", confirms)]⟩] := by
  rcases attach_cases c s id with ⟨e, he⟩ | ⟨ch, c₁, -, -, -, hk, he⟩
  · rw [he] at ha
    cases ha
  · rw [he] at ha
    cases ha
    split at hk
    · obtain ⟨ch', -, -, rfl⟩ := confirmSelect_ok hk
      exact ⟨_, rfl⟩
    · cases hk
      exact ⟨_, rfl⟩

theorem log_openChannel (c : Client) : c.openChannel.1.log = c.log ++
    match c.openChannel.2 with
    | .error _ => []
    | .ok id => [Connection.openLog id] := by
  rcases openChannel_cases c with ⟨e, rest, -, h⟩ | ⟨id, -, h⟩
  · rw [h]
    exact (List.append_nil _).symm
  · rw [h]

theorem log_perform? {d : Deed} (h : c.perform? d = some c') (hs : ∀ s, d ≠ .dispose s) (ho : d ≠ .openChannel) :
    c'.log = c.log := by
  cases d with
  | dispose s => exact absurd rfl (hs s)
  | openChannel => exact absurd rfl ho
  | supervise | failNext | listen | listenRecovery => cases h; rfl
  | cancel t =>
      cases h
      unfold cancel
      split <;> rfl
  | confirmSelect ch =>
      simp only [perform?] at h
      cases hk : c.confirmSelect ch with
      | error e => rw [hk] at h; cases h
      | ok c₁ =>
          rw [hk] at h
          cases h
          obtain ⟨ch', -, -, rfl⟩ := confirmSelect_ok hk
          rfl
  | signal | close =>
      simp only [perform?] at h
      split at h
      · cases h; rfl
      · cases h
  | unlisten | unlistenRecovery =>
      simp only [perform?] at h
      split at h
      · cases h
      · cases h; rfl

/-! ## Stories go with the ledger -/

/-- The log tells of the custody of all channels as it stands. -/
def Tells (c : Client) (r : Ledger) : Prop :=
  ∀ id, (r.standing id).Told (c.story id)

/-- The log goes on telling of the custody of channels. -/
def Chronicles (c : Client) (h : History) (c' : Client) : Prop :=
  c.Follows h c' ∧ ∀ r, c.Matches r → c.Tells r → c'.Tells (r.enterAll h)

/-- The channel is as it was opened. -/
def IsNew (c : Client) (id : ChannelId) : Prop :=
  ∃ recoverable, c.connection.channel? id = some { id, recoverable }

theorem Matches.standing_of_isNew (hm : c.Matches r) (hn : c.IsNew id) : r.standing id = {} := by
  obtain ⟨recoverable, hc⟩ := hn
  have hs := hm.shows id _ hc
  have hnobody : (r.standing id).holders = [] := List.map_eq_nil_iff.1 hs.listeners.symm
  have hopen := hs.isOpen
  have hcloses := hs.closes
  cases hk : r.standing id with
  | mk isOpen holders closes =>
      rw [hk] at hnobody hopen hcloses
      obtain rfl : holders = [] := hnobody
      obtain rfl : true = isOpen := hopen
      obtain rfl : 0 = closes := hcloses
      rfl

namespace Chronicles

theorem of_story (hf : c.Follows [] c') (hs : ∀ id, c'.story id = c.story id) : Chronicles c [] c' :=
  ⟨hf, fun _ _ ht id => hs id ▸ ht id⟩

theorem release (c : Client) (s : SupervisorId) : Chronicles c (.ofRelease c s) (c.closeHeld s) := by
  refine ⟨.release c s, fun r hm ht j => ?_⟩
  unfold History.ofRelease Supervisor.channel?
  cases hh : (c.supervisor s).held with
  | none =>
      rw [closeHeld_of_none hh]
      exact ht j
  | some k =>
      have hin := (hm.holders k.channel s _).2 ⟨by rw [Supervisor.channel?, hh]; rfl, rfl⟩
      rw [story_of_log (log_closeHeld hh), List.filterMap_cons, entry?_of_channel rfl]
      simp only [Option.map_some, Ledger.enterAll, List.foldl_cons, List.foldl_nil, Ledger.enter]
      by_cases hj : j = k.channel
      · subst hj
        have htold := ht k.channel
        simp only [if_true]
        generalize c.story k.channel = story at htold
        cases htold with
        | untold hk | released hk => rw [hk] at hin; cases hin
        | held hk =>
            rw [hk, List.mem_singleton] at hin
            exact .released (by simp [Standing.after, hk, ← hin]) (Nat.succ_pos _)
      · simp only [if_neg hj]
        exact (List.append_nil _).symm ▸ ht j

theorem attach {u : Except TransportError Unit} (hn : c.IsNew id) (hs : s.number < c.supervisors.length)
    (hnone : (c.supervisor s).held = none) (ha : c.attach s id = (c', u)) :
    Chronicles c (.ofAttach c s id) c' := by
  refine ⟨.attach hs hnone ha, fun r hm ht j => ?_⟩
  unfold History.ofAttach
  rw [ha]
  cases u with
  | error e =>
      have hstory : c'.story j = c.story j := by rw [attach_error ha]; rfl
      rw [hstory]
      simp only
      split
      · exact (ht j).enter (by simp) (by simp)
      · exact ht j
  | ok u =>
      obtain ⟨confirms, hlog⟩ := log_attach ha
      rw [story_of_log hlog, List.filterMap_cons, entry?_of_channel rfl]
      simp only [Ledger.enterAll, List.foldl_cons, List.foldl_nil, Ledger.enter]
      by_cases hj : j = id
      · subst hj
        have htold := ht j
        rw [hm.standing_of_isNew hn] at htold ⊢
        simp only [if_true]
        generalize c.story j = story at htold
        cases htold with
        | untold => exact .held rfl
        | held hk => cases hk
        | released _ hc => cases hc
      · simp only [if_neg hj]
        exact (List.append_nil _).symm ▸ ht j

theorem composes : Composes IsNew Chronicles where
  refl c := .of_story (.refl c) fun _ => rfl
  trans hf hf' := by
    refine ⟨hf.1.trans hf'.1, fun r hm ht => ?_⟩
    rw [Ledger.enterAll_append]
    exact hf'.2 _ (hf.1 r hm) (hf.2 r hm ht)
  left c v := .of_story (.left v) fun _ => rfl
  record c x hx := .of_story (.record x) (story_record hx)
  openChannel c := .of_story (fun _ hm => hm.openChannel) fun id => by
    rw [story_of_log (log_openChannel c)]
    split
    · exact List.append_nil _
    · rw [List.filterMap_cons_none (entry?_of_not_custody rfl id)]
      exact List.append_nil _
  release := release
  attach := attach

theorem perform? {d : Deed} (h : c.perform? d = some c') : Chronicles c (.ofDeed c d) c' := by
  by_cases hs : ∃ s, d = .dispose s
  · obtain ⟨s, rfl⟩ := hs
    simp only [Client.perform?] at h
    split at h
    · cases h
      exact composes.dispose (.of_story (.disposed c s) fun _ => rfl)
    · cases h
  · by_cases ho : d = .openChannel
    · subst ho
      cases h
      exact composes.openChannel c
    · have hlog := log_perform? h (fun s hd => hs ⟨s, hd⟩) ho
      refine ⟨.perform? h, fun r _ ht id => ?_⟩
      rw [story, hlog]
      cases d with
      | dispose s => exact absurd ⟨s, rfl⟩ hs
      | signal | close => exact (ht id).enter (by simp) (by simp)
      | _ => exact ht id

theorem begun (h : c.Begun v c' q) : Chronicles c [] c' :=
  .of_story (.begun h) fun _ => by cases h <;> rfl

end Chronicles

/-! ## Reports and farewells -/

/-- The log grows by the notes, and by records that are neither reports nor farewells. -/
def Logs (c : Client) (notes : List Log.Record) (c' : Client) : Prop :=
  ∃ rs, c'.log = c.log ++ (rs ++ notes) ∧ ∀ r ∈ rs, isReport r = false ∧ isDisposal r = false

namespace Logs

theorem of_eq (hl : c'.log = c.log) : Logs c [] c' :=
  ⟨[], by simp [hl], by simp⟩

theorem of_log {x : Log.Record} (hl : c'.log = c.log ++ [x]) (hr : isReport x = false) (hd : isDisposal x = false) :
    Logs c [] c' :=
  ⟨[x], by simp [hl], by simp [hr, hd]⟩

theorem note (h : Logs c [] c') (x : Log.Record) : Logs c [x] (c'.record x) := by
  obtain ⟨rs, hl, hrs⟩ := h
  exact ⟨rs, by simp [record, hl], hrs⟩

theorem trans (h : Logs c [] c') (h' : Logs c' notes c'') : Logs c notes c'' := by
  obtain ⟨rs, hl, hrs⟩ := h
  obtain ⟨rs', hl', hrs'⟩ := h'
  refine ⟨rs ++ rs', by simp [hl, hl'], fun r hr => ?_⟩
  exact (List.mem_append.1 hr).elim (hrs r) (hrs' r)

theorem reports (h : Logs c notes c') : c'.reports = c.reports ++ notes.filter isReport := by
  obtain ⟨rs, hl, hrs⟩ := h
  have hnil : rs.filter isReport = [] := List.filter_eq_nil_iff.2 fun r hr => by simp [(hrs r hr).1]
  rw [Client.reports, hl, List.filter_append, List.filter_append, hnil, List.nil_append, Client.reports]

theorem disposals (h : Logs c notes c') : c'.disposals = c.disposals ++ notes.filter isDisposal := by
  obtain ⟨rs, hl, hrs⟩ := h
  have hnil : rs.filter isDisposal = [] := List.filter_eq_nil_iff.2 fun r hr => by simp [(hrs r hr).2]
  rw [Client.disposals, hl, List.filter_append, List.filter_append, hnil, List.nil_append, Client.disposals]

theorem closeHeld (c : Client) (s : SupervisorId) : Logs c [] (c.closeHeld s) := by
  cases hh : (c.supervisor s).held with
  | none => rw [closeHeld_of_none hh]; exact of_eq rfl
  | some k => exact of_log (log_closeHeld hh) rfl rfl

theorem openChannel (c : Client) : Logs c [] c.openChannel.1 := by
  have hl := log_openChannel c
  split at hl
  · exact of_eq (hl.trans (List.append_nil _))
  · exact of_log hl rfl rfl

theorem opens {u : Except TransportError ChannelId} (ho : Opens c m c' u) : Logs c [] c' := by
  cases ho with
  | own => exact openChannel c
  | foreign => exact of_eq rfl

theorem attach {u : Except TransportError Unit} (ha : c.attach s id = (c', u)) : Logs c [] c' := by
  cases u with
  | error e => rw [attach_error ha]; exact of_eq rfl
  | ok u =>
      obtain ⟨confirms, hl⟩ := log_attach ha
      exact of_log hl rfl rfl

end Logs

theorem Fails.logs {a : Attempt α} {f : TransportError} (h : Fails c v m a c' f) : Logs c [] c' := by
  cases h with
  | unopened _ ho => exact .opens ho
  | unattached _ ho ha => exact .trans (.opens ho) (.attach ha)
  | acted => exact .of_eq rfl

/-- The report of a failed attempt of an invocation. -/
def report (c : Client) (v : Invocation) (f : TransportError) : Log.Record :=
  (c.verdict v f).report v.attempt f (if (c.verdict v f).rethrows then none else some v.backoff.step.1)

theorem isReport_report (c : Client) (v : Invocation) (f : TransportError) :
    isReport (c.report v f) = true ∧ isDisposal (c.report v f) = false := by
  unfold report
  split <;> exact ⟨rfl, rfl⟩

theorem failed_eq (c : Client) (v : Invocation) (f : TransportError) : c.failed v f =
    (if (c.verdict v f).closes then c.closeHeld v.supervisor else c).record (c.report v f) := by
  have hk : (c.supervisor v.supervisor).options.classifier.classify f = c.verdict v f := rfl
  simp only [failed, report, hk]
  cases (c.verdict v f).rethrows <;> rfl

theorem Fails.logs_failed {a : Attempt α} {f : TransportError} (h : Fails c v m a c' f) :
    Logs c [c.report v f] (c'.failed v f) := by
  have hreport : c'.report v f = c.report v f := by simp only [report, h.verdict]
  rw [failed_eq, hreport]
  refine .note (h.logs.trans ?_) _
  split
  · exact .closeHeld ..
  · exact .of_eq rfl

theorem Fails.failure? {a : Attempt α} {f : TransportError} (h : Fails c v m a c' f) : a.failure? = some f := by
  rw [Attempt.failure?, h.result]

/-- A move reports the attempt that it brings to its end, if that failed. -/
theorem Leads.logs {a : Option (Attempt α)} (h : Leads c v m a c' q) :
    Logs c ((a.bind Attempt.failure?).map (c.report v)).toList c' := by
  cases h with
  | looked | rested | unheld | reuses | givenUp | succeeds => exact .of_eq rfl
  | discards => exact .trans (.of_log rfl rfl rfl) (.closeHeld ..)
  | attaches _ ho ha => exact .trans (.opens ho) (.attach ha)
  | orphans _ ho ha => exact (Logs.opens ho).trans ((Logs.attach ha).trans (.closeHeld ..))
  | throws hf | suppresses hf =>
      simp only [Option.bind_some, hf.failure?, Option.map_some, Option.toList_some]
      exact hf.logs_failed

/-- The first disposal of a supervisor is told. -/
def farewells (c : Client) : Deed → List Log.Record
  | .dispose s => if c.isDisposed s then [] else [.farewell]
  | _ => []

theorem logs_perform? {d : Deed} (h : c.perform? d = some c') : Logs c (c.farewells d) c' := by
  cases d with
  | dispose s =>
      simp only [perform?] at h
      split at h
      · cases h
        cases hd : c.isDisposed s with
        | true =>
            simp only [dispose, farewells, hd, if_true]
            exact .of_eq rfl
        | false =>
            have hmarked : Logs c [] (c.modify s ({ · with disposed := true })) := .of_eq rfl
            simp only [dispose, farewells, hd]
            exact (hmarked.trans (.closeHeld _ s)).note .farewell
      · cases h
  | openChannel => cases h; exact .openChannel c
  | _ => exact .of_eq (log_perform? h (by simp) (by simp))

theorem filter_farewells (c : Client) (d : Deed) :
    (c.farewells d).filter isReport = [] ∧ (c.farewells d).filter isDisposal = c.farewells d := by
  cases d with
  | dispose s =>
      simp only [farewells]
      split <;> exact ⟨rfl, rfl⟩
  | _ => exact ⟨rfl, rfl⟩

end Client

namespace Scene

variable {α : Type} {w w' : Scene α} {e : Event α} {i : InvocationId} {s : SupervisorId}

/-! ## Stories of runs -/

theorem chronicles_of_step (hr : w.Reachable) (hd : w.direct = true) (h : w.step e = some w') :
    w.client.Chronicles (w.acts e) w'.client := by
  cases steps_of_step h with
  | deed hf hp => exact .perform? hp
  | begin hs hi hb => exact .begun hb
  | move hf hi hm =>
      simp only [acts, hi]
      exact Client.Chronicles.composes.move? hm (hr.known hi).supervisor
        (hr.held_of_opening hi (Client.phase_of_move? hm))
        fun c₀ id ho => ⟨_, ho.channel? (ne_opened_of_direct hd hf) (hr.custody hd).numbered⟩

theorem chronicles_of_run {es : List (Event α)} (hr : w.Reachable) (hd : w.direct = true) (h : w.run es = some w') :
    w.client.Chronicles (w.history es) w'.client :=
  related_of_run Client.Chronicles.composes chronicles_of_step hr hd h

/-! ## Failures -/

/-- The attempts that failed, oldest first. -/
def failures (w : Scene α) : List (InvocationId × TransportError) :=
  w.trace.filterMap Mark.failure?

theorem failures_reached (q : Participant α) : q.reached.filterMap Mark.failure? = [] := by
  unfold Participant.reached
  split <;> rfl

theorem failures_marks (c : Client) (v : Invocation) (m : Move α) (q : Participant α) :
    (marks c v m q).filterMap Mark.failure? = (((c.attempted? v m).bind Attempt.failure?).map (v.id, ·)).toList := by
  unfold marks
  split
  · rfl
  · rw [List.filterMap_append, failures_reached, List.append_nil]
    cases c.attempted? v m with
    | none => rfl
    | some a =>
        simp only [Option.map_some, Option.toList_some, List.filterMap_cons, List.filterMap_nil, Mark.failure?,
          Option.bind_some]
        cases a.failure? <;> rfl

/-- What the log reports of a step: the attempt that failed by it, if one did, with the verdict on it, and with the
delay that the invocation waits for if another attempt follows. -/
inductive Reports (w : Scene α) (e : Event α) (w' : Scene α) : Prop where
  | silent (hn : w'.failures = w.failures) (hl : w'.client.reports = w.client.reports)
  | throws {i : InvocationId} {p q : Participant α} {f : TransportError} (hp : w.participants i = some p)
      (hn : w'.failures = w.failures ++ [(i, f)]) (hk : (w.client.verdict p.invocation f).rethrows = true)
      (hl : w'.client.reports =
        w.client.reports ++ [(w.client.verdict p.invocation f).report p.invocation.attempt f none])
      (hq : w'.participants i = some q) (hended : q.phase = .ended (.failed f))
  | retries {i : InvocationId} {p q : Participant α} {f : TransportError} {d : Duration} (hp : w.participants i = some p)
      (hn : w'.failures = w.failures ++ [(i, f)]) (hk : (w.client.verdict p.invocation f).rethrows = false)
      (hl : w'.client.reports =
        w.client.reports ++ [(w.client.verdict p.invocation f).report p.invocation.attempt f (some d)])
      (hq : w'.participants i = some q) (hwaits : q.phase = .waiting) (hdelay : q.invocation.stage = .delaying d)

theorem reports_of_step (hr : w.Reachable) (hs : w.step e = some w') : w.Reports e w' := by
  have hsame {ms : List (Mark α)} (hms : ms.filterMap Mark.failure? = []) :
      (w.trace ++ ms).filterMap Mark.failure? = w.failures := by
    rw [List.filterMap_append, hms, List.append_nil, failures]
  cases steps_of_step hs with
  | deed hf hp =>
      refine .silent (hsame rfl) ?_
      rw [(Client.logs_perform? hp).reports, (Client.filter_farewells ..).1, List.append_nil]
  | begin hl hi hb =>
      refine .silent (hsame ?_) (by cases hb <;> rfl)
      rw [List.filterMap_cons_none rfl, failures_reached]
  | @move i m p q c hf hi hm =>
      have hl := Client.leads_of_move? hm
      have hreports := hl.logs.reports
      have hfailures : (w.put c i q (marks w.client p.invocation m q)).failures =
          w.failures ++ (((w.client.attempted? p.invocation m).bind Attempt.failure?).map (i, ·)).toList := by
        rw [failures, put, List.filterMap_append, failures_marks, (hr.known hi).id, failures]
      have hq : (w.put c i q (marks w.client p.invocation m q)).participants i = some q := if_pos rfl
      have hfailed {a : Attempt α} {c₁ : Client} {f : TransportError} (hf : w.client.Fails p.invocation m a c₁ f)
          (ha : w.client.attempted? p.invocation m = some a) :
          (w.put c i q (marks w.client p.invocation m q)).failures = w.failures ++ [(i, f)] ∧
            c.reports = w.client.reports ++ [w.client.report p.invocation f] := by
        rw [ha, Option.bind_some, hf.failure?] at hfailures hreports
        exact ⟨hfailures, by rwa [Option.map_some, Option.toList_some, List.filter_singleton,
          (Client.isReport_report ..).1] at hreports⟩
      generalize hat : w.client.attempted? p.invocation m = a at hl hreports hfailures
      cases hl with
      | throws hf hk =>
          obtain ⟨hn, hl⟩ := hfailed hf hat
          rw [hf.verdict] at hk
          rw [Client.report, hk, if_pos rfl] at hl
          exact .throws hi hn hk hl hq rfl
      | suppresses hf hk =>
          obtain ⟨hn, hl⟩ := hfailed hf hat
          rw [hf.verdict] at hk
          rw [Client.report, hk, if_neg Bool.false_ne_true] at hl
          exact .retries hi hn hk hl hq rfl rfl
      | _ => exact .silent (hfailures.trans (List.append_nil _)) (hreports.trans (List.append_nil _))

/-- An attempt that failed is reported with the verdict on it, and with a delay if another attempt followed. -/
def Reported (w : Scene α) (x : InvocationId × TransportError) (r : Log.Record) : Prop :=
  ∃ p attempt delay, w.participants x.1 = some p ∧ r = (w.client.verdict p.invocation x.2).report attempt x.2 delay ∧
    delay.isNone = (w.client.verdict p.invocation x.2).rethrows

theorem Reported.step {x : InvocationId × TransportError} {r : Log.Record} (h : w.Reported x r) (hr : w.Reachable)
    (hs : w.Steps e w') : w'.Reported x r := by
  obtain ⟨p, attempt, delay, hp, hrec, hd⟩ := h
  obtain ⟨p', hp', hsup, -⟩ := hs.persists hp
  have hverdict : w'.client.verdict p'.invocation x.2 = w.client.verdict p.invocation x.2 := by
    rw [Client.verdict, Client.verdict, hsup, hs.grows.options _ (hr.known hp).supervisor]
  exact ⟨p', attempt, delay, hp', by rw [hverdict]; exact hrec, by rw [hverdict]; exact hd⟩

/-- The failures and their reports go side by side. -/
theorem Reachable.reports (h : w.Reachable) : List.Forall₂ w.Reported w.failures w.client.reports := by
  induction h with
  | start => exact .nil
  | @step w w' e hr hs ih =>
      have hsteps := steps_of_step hs
      have hlater := ih.imp fun x r hx => hx.step hr hsteps
      have hlast {i : InvocationId} {p : Participant α} {f : TransportError} {n : UInt32} {d : Option Duration}
          (hp : w.participants i = some p) (hk : d.isNone = (w.client.verdict p.invocation f).rethrows) :
          w'.Reported (i, f) ((w.client.verdict p.invocation f).report n f d) :=
        Reported.step ⟨p, n, d, hp, rfl, hk⟩ hr hsteps
      cases reports_of_step hr hs with
      | silent hn hl => rw [hn, hl]; exact hlater
      | throws hp hn hk hl =>
          rw [hn, hl]
          exact List.rel_append hlater (.cons (hlast hp hk.symm) .nil)
      | retries hp hn hk hl =>
          rw [hn, hl]
          exact List.rel_append hlater (.cons (hlast hp hk.symm) .nil)

/-! ## Disposals -/

/-- The supervisors that were disposed of. -/
def disposed (w : Scene α) : Finset SupervisorId :=
  (w.trace.filterMap Mark.disposed?).toFinset

/-- The first disposal of a supervisor is told. -/
def farewells (w : Scene α) : Event α → List Log.Record
  | .deed d => w.client.farewells d
  | _ => []

theorem mem_disposed : s ∈ w.disposed ↔ .deed (.dispose s) ∈ w.trace := by
  rw [disposed, List.mem_toFinset, List.mem_filterMap]
  constructor
  · rintro ⟨k, hk, hs⟩
    unfold Mark.disposed? at hs
    split at hs
    · cases hs; exact hk
    · cases hs
  · exact fun hk => ⟨_, hk, rfl⟩

theorem Reachable.mem_disposed (h : w.Reachable) : s ∈ w.disposed ↔ w.client.isDisposed s = true :=
  Scene.mem_disposed.trans (h.disposed_iff s).symm

theorem disposals_of_step (hs : w.step e = some w') :
    w'.client.disposals = w.client.disposals ++ w.farewells e := by
  cases steps_of_step hs with
  | deed hf hp => exact (Client.logs_perform? hp).disposals.trans (by rw [(Client.filter_farewells ..).2]; rfl)
  | begin hl hi hb => exact (List.append_nil _).symm ▸ by cases hb <;> rfl
  | @move i m p q c hf hi hm =>
      refine (Client.leads_of_move? hm).logs.disposals.trans ?_
      congr 1
      cases (w.client.attempted? p.invocation m).bind Attempt.failure? with
      | none => rfl
      | some f => simp [farewells, (Client.isReport_report ..).2]

theorem Reachable.disposals (h : w.Reachable) :
    w.client.disposals = List.replicate w.disposed.card .farewell := by
  induction h with
  | start => rfl
  | @step w w' e hr hs ih =>
      have hmem (s : SupervisorId) : s ∈ w'.disposed ↔ s ∈ w.disposed ∨ e = .deed (.dispose s) := by
        rw [Scene.mem_disposed, Scene.mem_disposed, (steps_of_step hs).deed_mem_trace]
      rw [disposals_of_step hs, ih]
      by_cases he : ∃ s, e = .deed (.dispose s)
      · obtain ⟨s, rfl⟩ := he
        have hinsert : w'.disposed = insert s w.disposed := by
          ext s'
          rw [hmem, Finset.mem_insert, or_comm, Event.deed.injEq, Deed.dispose.injEq, eq_comm]
        rw [hinsert]
        simp only [farewells, Client.farewells]
        split
        · rename_i hd
          rw [Finset.insert_eq_of_mem (hr.mem_disposed.2 hd), List.append_nil]
        · rename_i hd
          rw [Finset.card_insert_of_notMem (mt hr.mem_disposed.1 hd), List.replicate_succ']
      · have hsame : w'.disposed = w.disposed := by
          ext s
          rw [hmem, or_iff_left fun hs => he ⟨s, hs⟩]
        have hnone : w.farewells e = [] := by
          cases e with
          | deed d =>
              cases d with
              | dispose s => exact absurd ⟨s, rfl⟩ he
              | _ => rfl
          | begin | move => rfl
        rw [hsame, hnone, List.append_nil]

/-! ## The log as a whole -/

/-- The log accounts for all channels, all failures and all disposals. Of a channel it tells nothing, or that it was
created, or that it was created and then closed; just of those that are held it tells the second. -/
structure Journal (w : Scene α) : Prop where
  story : ∀ id, w.client.story id = [] ∨ w.client.story id = [.created] ∨ w.client.story id = [.created, .closed]
  held : ∀ id, w.client.story id = [.created] ↔ ∃ s, (w.client.supervisor s).channel? = some id
  reports : List.Forall₂ w.Reported w.failures w.client.reports
  disposals : w.client.disposals = List.replicate w.disposed.card .farewell
  disposed : ∀ s, s ∈ w.disposed ↔ w.client.isDisposed s = true

theorem journal_of_run {recoverable : Bool} {es : List (Event α)} (hrun : (start recoverable true).run es = some w) :
    w.Journal := by
  have hr₀ := Reachable.start (α := α) recoverable true
  have hr := hr₀.run hrun
  obtain ⟨hfollows, htells⟩ := chronicles_of_run hr₀ rfl hrun
  have hm := hfollows _ (.start recoverable)
  have ht := htells _ (.start recoverable) fun _ => .untold rfl
  generalize Ledger.enterAll {} ((start (α := α) recoverable true).history es) = r at hm ht
  refine ⟨fun id => (ht id).cases_eq, fun id => ?held, hr.reports, hr.disposals, fun s => hr.mem_disposed⟩
  rw [(ht id).eq_created_iff]
  constructor
  · rintro ⟨⟨s, b⟩, hx⟩
    exact ⟨s, ((hm.holders id s b).1 hx).1⟩
  · rintro ⟨s, hk⟩
    exact ⟨(s, _), (hm.holders id s _).2 ⟨hk, rfl⟩⟩

/-- The log of a connection that opens its channels itself accounts for all of them, and for all failures and disposals;
and each step adds just what it did. -/
theorem log_accounts {recoverable : Bool} {es : List (Event α)} (hrun : (start recoverable true).run es = some w) :
    w.Journal ∧ ∀ e w', w.step e = some w' →
      w.Reports e w' ∧ w'.client.disposals = w.client.disposals ++ w.farewells e := by
  have hr := (Reachable.start (α := α) recoverable true).run hrun
  exact ⟨journal_of_run hrun, fun e w' hs => ⟨reports_of_step hr hs, disposals_of_step hs⟩⟩

/-- The first opening fails and is tried again, and the action on the second one is refused for good. Another supervisor
holds a channel when the first one is disposed of, twice. -/
def accounted : List (Event Nat) :=
  [.deed (.supervise {}), .deed (.supervise {}), .deed (.failNext (.unreachable "away")), .begin ⟨0⟩ ⟨0⟩ none,
    .move ⟨0⟩ .enter, .move ⟨0⟩ .look, .move ⟨0⟩ .opens, .move ⟨0⟩ .look, .move ⟨0⟩ (.answer .elapsed), .move ⟨0⟩ .look,
    .move ⟨0⟩ .opens, .move ⟨0⟩ .look,
    .move ⟨0⟩ (.answer (.acted (.error (.interrupted (some ⟨.peer, 403, "refused"⟩))))), .begin ⟨1⟩ ⟨1⟩ none,
    .move ⟨1⟩ .enter, .move ⟨1⟩ .look, .move ⟨1⟩ .opens, .deed (.dispose ⟨0⟩), .deed (.dispose ⟨0⟩)]

theorem log_accounts_accounted : ∃ (w w' : Scene Nat), (start true true).run accounted = some w ∧
    w.client.story ⟨1⟩ = [.created, .closed] ∧ w.client.story ⟨2⟩ = [.created] ∧
    w.failures.map Prod.snd = [.unreachable "away", .interrupted (some ⟨.peer, 403, "refused"⟩)] ∧
    w.client.reports.length = 2 ∧ w.client.disposals = [.farewell] ∧ w.step (.deed (.dispose ⟨1⟩)) = some w' ∧
    w'.client.disposals = [.farewell, .farewell] := by
  obtain ⟨w, hw⟩ := Option.isSome_iff_exists.1 (rfl : ((start true true).run accounted).isSome = true)
  have hfailures : w.failures.map Prod.snd = [.unreachable "away", .interrupted (some ⟨.peer, 403, "refused"⟩)] :=
    map_of_run (·.failures.map Prod.snd) hw rfl
  obtain ⟨w', hw'⟩ := Option.isSome_iff_exists.1
    (map_of_run (fun w => (w.step (.deed (.dispose ⟨1⟩))).isSome) hw rfl : _ = true)
  obtain ⟨hj, hstep⟩ := log_accounts hw
  have hheld : (w.client.supervisor ⟨1⟩).channel? = some ⟨2⟩ := map_of_run (·.client.supervisor ⟨1⟩ |>.channel?) hw rfl
  have hstory : w.client.story ⟨2⟩ = [.created] := (hj.held ⟨2⟩).2 ⟨⟨1⟩, hheld⟩
  have hcard : w.disposed.card = 1 := map_of_run (·.disposed.card) hw rfl
  have hdisposals : w.client.disposals = [.farewell] := by rw [hj.disposals, hcard]; rfl
  have hfarewells : w.farewells (.deed (.dispose ⟨1⟩)) = [.farewell] :=
    map_of_run (·.farewells (.deed (.dispose ⟨1⟩))) hw rfl
  refine ⟨w, w', hw, map_of_run (·.client.story ⟨1⟩) hw (by decide), hstory, hfailures, ?_, hdisposals, hw', ?_⟩
  · rw [← hj.reports.length_eq, ← List.length_map Prod.snd, hfailures]
    rfl
  · rw [(hstep _ w' hw').2, hdisposals, hfarewells]
    rfl

end Scene

end BrokerClient
