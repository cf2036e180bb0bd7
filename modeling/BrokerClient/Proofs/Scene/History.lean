import BrokerClient.Proofs.Scene.Matching

/-!
# Histories of operations

The history of an operation is what it does to the channels, in the order in which it does it. A client in step with a
ledger stays in step when the history of the operation is entered (`Follows`). Only visitors raise signals, and where
the connection opens all channels those that are refused are new (`RefusesNew`).

What relates a client to the one that a single operation makes of it, by the history of the operation, does so for whole
moves and disposals, if it can be composed (`Composes`).
-/
namespace BrokerClient

open Client (Answer)

namespace History

/-! ## The acts of operations -/

variable {α : Type}

def ofRelease (c : Client) (s : SupervisorId) : History :=
  match (c.supervisor s).channel? with
  | some id => [(id, .released s)]
  | none => []

/-- A channel that cannot be held is closed, if there is one. -/
def ofAttach (c : Client) (s : SupervisorId) (id : ChannelId) : History :=
  match (c.attach s id).2 with
  | .ok () => [(id, .held s (c.supervisor s).options.confirms)]
  | .error _ => if c.knows id then [(id, .refused s)] else []

def ofFailure (c : Client) (v : Invocation) (e : TransportError) : History :=
  if (c.verdict v e).closes then ofRelease c v.supervisor else []

/-- An attempt that is not given up lets go of a channel that it finds closed. -/
def ofAttempt (α : Type) (c : Client) (v : Invocation) : History :=
  if (c.interruption? (α := α) v).isNone && (c.supervisorOf v).channel?.any (fun id => !c.isOpen id) then
    ofRelease c v.supervisor
  else []

def ofOpened (c : Client) (v : Invocation) : Except TransportError ChannelId → History
  | .error e => ofFailure c v e
  | .ok id =>
    ofAttach c v.supervisor id ++
      match c.attach v.supervisor id with
      | (c, .error e) => ofFailure c v e
      | (c, .ok ()) => if c.isDisposed v.supervisor then ofRelease c v.supervisor else []

def ofAnswer (c : Client) (v : Invocation) (a : Answer α) : History :=
  match v.stage, a with
  | .opening, .opened r => ofOpened c v r
  | .acting _, .acted (.error e) => ofFailure c v e
  | .delaying _, .elapsed => ofAttempt α c v
  | _, _ => []

def ofMove (c : Client) (v : Invocation) : Move α → History
  | .enter => ofAttempt α c v
  | .look | .rest => []
  | .opens => ofOpened c.openChannel.1 v c.openChannel.2
  | .answer a => ofAnswer c v a

def ofDeed (c : Client) : Deed → History
  | .dispose s => if c.isDisposed s then [] else ofRelease c s
  | .signal id g => [(id, .raised g)]
  | .close id => [(id, .closed)]
  | _ => []

/-! ## Acts of supervisors -/

theorem released_of_mem_ofRelease {c : Client} {s : SupervisorId} {x : ChannelId × Act} (hx : x ∈ ofRelease c s) :
    ∃ id, x = (id, .released s) := by
  unfold ofRelease at hx
  split at hx
  · exact ⟨_, List.mem_singleton.1 hx⟩
  · cases hx

theorem released_of_mem_ofFailure {c : Client} {v : Invocation} {e : TransportError} {x : ChannelId × Act}
    (hx : x ∈ ofFailure c v e) : ∃ id, x = (id, .released v.supervisor) := by
  unfold ofFailure at hx
  split at hx
  · exact released_of_mem_ofRelease hx
  · cases hx

theorem released_of_mem_ofAttempt {c : Client} {v : Invocation} {x : ChannelId × Act}
    (hx : x ∈ ofAttempt α c v) : ∃ id, x = (id, .released v.supervisor) := by
  unfold ofAttempt at hx
  split at hx
  · exact released_of_mem_ofRelease hx
  · cases hx

/-- Acts of visitors: signals and closes from outside. -/
def isVisit : ChannelId × Act → Bool
  | (_, .closed) | (_, .raised _) => true
  | _ => false

theorem not_visit_of_mem_ofOpened {c : Client} {v : Invocation} {r : Except TransportError ChannelId}
    {x : ChannelId × Act} (hx : x ∈ ofOpened c v r) : isVisit x = false := by
  cases r with
  | error e =>
      obtain ⟨id, rfl⟩ := released_of_mem_ofFailure hx
      rfl
  | ok id =>
      rcases List.mem_append.1 hx with hx | hx
      · unfold ofAttach at hx
        split at hx
        · rw [List.mem_singleton.1 hx]; rfl
        · split at hx
          · rw [List.mem_singleton.1 hx]; rfl
          · cases hx
      · split at hx
        · obtain ⟨id, rfl⟩ := released_of_mem_ofFailure hx
          rfl
        · split at hx
          · obtain ⟨id, rfl⟩ := released_of_mem_ofRelease hx
            rfl
          · cases hx

theorem not_visit_of_mem_ofMove {c : Client} {v : Invocation} {m : Move α} {x : ChannelId × Act}
    (hx : x ∈ ofMove c v m) : isVisit x = false := by
  cases m with
  | enter =>
      obtain ⟨id, rfl⟩ := released_of_mem_ofAttempt hx
      rfl
  | look | rest => cases hx
  | opens => exact not_visit_of_mem_ofOpened hx
  | answer a =>
      simp only [ofMove, ofAnswer] at hx
      split at hx
      · exact not_visit_of_mem_ofOpened hx
      · obtain ⟨id, rfl⟩ := released_of_mem_ofFailure hx
        rfl
      · obtain ⟨id, rfl⟩ := released_of_mem_ofAttempt hx
        rfl
      · cases hx

/-- A refusal comes first, and is of the channel that was opened. -/
theorem refused_of_ofOpened {c : Client} {v : Invocation} {r : Except TransportError ChannelId} {id : ChannelId}
    {s : SupervisorId} {h₁ h₂ : History} (h : ofOpened c v r = h₁ ++ (id, .refused s) :: h₂) :
    h₁ = [] ∧ r = .ok id := by
  have hfail {c : Client} {e : TransportError} {h₁ : History} (h : ofFailure c v e = h₁ ++ (id, .refused s) :: h₂) :
      False := by
    obtain ⟨j, hj⟩ := released_of_mem_ofFailure (h ▸ List.mem_append_right h₁ List.mem_cons_self)
    cases hj
  cases r with
  | error e => exact (hfail h).elim
  | ok new =>
      cases ha : c.attach v.supervisor new with
      | mk c₁ r =>
          simp only [ofOpened, ofAttach, ha] at h
          cases r with
          | error e =>
              -- What comes behind the refusal is at most a release.
              simp only at h
              split at h
              · cases h₁ with
                | nil =>
                    cases (List.cons.inj h).1
                    exact ⟨rfl, rfl⟩
                | cons y ys => exact (hfail (List.cons.inj h).2).elim
              · exact (hfail h).elim
          | ok u =>
              simp only at h
              cases h₁ with
              | nil => cases (List.cons.inj h).1
              | cons y ys =>
                  have hin : (id, .refused s) ∈ ys ++ (id, .refused s) :: h₂ :=
                    List.mem_append_right ys List.mem_cons_self
                  simp only [List.cons_append, List.nil_append, List.cons.injEq] at h
                  rw [← h.2] at hin
                  split at hin
                  · obtain ⟨j, hj⟩ := released_of_mem_ofRelease hin
                    cases hj
                  · cases hin

/-- Every channel that is refused is a new one. -/
def RefusesNew (r : Ledger) (h : History) : Prop :=
  ∀ h₁ id s h₂, h = h₁ ++ (id, .refused s) :: h₂ → (r.enterAll h₁).standing id = {}

namespace RefusesNew

variable {r : Ledger} {h h' : History}

theorem of_not_mem (hn : ∀ id s, (id, .refused s) ∉ h) : RefusesNew r h := by
  rintro h₁ id s h₂ rfl
  exact absurd (List.mem_append_right h₁ List.mem_cons_self) (hn id s)

theorem append (hf : RefusesNew r h) (hf' : RefusesNew (r.enterAll h) h') : RefusesNew r (h ++ h') := by
  intro h₁ id s h₂ heq
  rcases List.append_eq_append_iff.1 heq with ⟨l, rfl, hl⟩ | ⟨l, rfl, hl⟩
  · rw [Ledger.enterAll_append]
    exact hf' l id s h₂ hl
  · cases l with
    | nil =>
        rw [List.append_nil] at hf'
        exact hf' [] id s h₂ hl.symm
    | cons x xs =>
        obtain ⟨rfl, -⟩ := List.cons.inj hl
        exact hf h₁ id s xs rfl

end RefusesNew

end History

namespace Client

variable {α : Type} {c c' c'' : Client} {h h' : History} {s : SupervisorId} {id : ChannelId} {v : Invocation}

/-! ## Operations composed -/

/-- Whether the record tells of the custody of a channel. -/
def isCustody (r : Log.Record) : Bool :=
  r.message = "persistent channel created" || r.message = "persistent channel closed"

/-- A relation between clients by a history that holds of the single operations of moves and goes along with
composition. The channels that are attached are `New`. -/
structure Composes (New : Client → ChannelId → Prop) (R : Client → History → Client → Prop) : Prop where
  refl (c : Client) : R c [] c
  trans {c c' c'' : Client} {h h' : History} : R c h c' → R c' h' c'' → R c (h ++ h') c''
  left (c : Client) (v : Invocation) : R c [] (c.left v)
  record (c : Client) {r : Log.Record} : isCustody r = false → R c [] (c.record r)
  openChannel (c : Client) : R c [] c.openChannel.1
  release (c : Client) (s : SupervisorId) : R c (.ofRelease c s) (c.closeHeld s)
  attach {c c' : Client} {s : SupervisorId} {id : ChannelId} {r : Except TransportError Unit} : New c id →
    s.number < c.supervisors.length → (c.supervisor s).held = none → c.attach s id = (c', r) → R c (.ofAttach c s id) c'

namespace Composes

variable {New : Client → ChannelId → Prop} {R : Client → History → Client → Prop}

theorem before (hk : Composes New R) (hf : R c h c') (hf' : R c' [] c'') : R c h c'' := by
  have := hk.trans hf hf'
  rwa [List.append_nil] at this

theorem failed (hk : Composes New R) (c : Client) (v : Invocation) (e : TransportError) :
    R c (.ofFailure c v e) (c.failed v e) := by
  have hrecord (c' : Client) (b : Bool) (fields fields' : List (String × String)) : R c' []
      (c'.record (if b then ⟨.debug, "channel action failed", fields⟩
        else ⟨.warn, "channel action failed, retrying", fields'⟩)) :=
    hk.record c' (by cases b <;> rfl)
  unfold Client.failed History.ofFailure Client.verdict
  simp only
  split
  · exact hk.before (hk.release c v.supervisor) (hrecord _ _ _ _)
  · exact hrecord _ _ _ _

theorem fail (hk : Composes New R) (c : Client) (v : Invocation) (e : TransportError) :
    R c (.ofFailure c v e) (c.fail (α := α) v e).1 := by
  cases hr : (c.verdict v e).rethrows with
  | true =>
      rw [fail_of_rethrows hr]
      exact hk.before (hk.failed c v e) (hk.left _ v)
  | false =>
      rw [fail_of_suppresses hr]
      exact hk.failed c v e

theorem attempt (hk : Composes New R) (c : Client) (v : Invocation) :
    R c (.ofAttempt α c v) (c.attempt (α := α) v).1 := by
  cases hi : c.interruption? (α := α) v with
  | some o =>
      simp only [Client.attempt, History.ofAttempt, hi, Option.isNone_some, Bool.false_and]
      exact hk.left c v
  | none =>
      cases hch : (c.supervisorOf v).channel? with
      | none =>
          have hch' : (c.supervisor v.supervisor).channel? = none := hch
          simp only [Client.attempt, History.ofAttempt, supervisorOf, hi, hch', Option.any_none, Bool.and_false]
          exact hk.refl c
      | some id =>
          have hch' : (c.supervisor v.supervisor).channel? = some id := hch
          simp only [Client.attempt, History.ofAttempt, supervisorOf, hi, hch', Option.any_some, Option.isNone_none,
            Bool.true_and]
          cases ho : c.isOpen id with
          | true => exact hk.refl c
          | false => exact hk.trans (hk.record c rfl) (hk.release (c.record _) v.supervisor)

theorem opened (hk : Composes New R) (hs : v.supervisor.number < c.supervisors.length)
    (hn : (c.supervisor v.supervisor).held = none) {r : Except TransportError ChannelId}
    (hnew : ∀ id, r = .ok id → New c id) : R c (.ofOpened c v r) (c.opened (α := α) v r).1 := by
  cases r with
  | error e => exact hk.fail c v e
  | ok id =>
      cases ha : c.attach v.supervisor id with
      | mk c₁ r =>
          have hf := hk.attach (hnew id rfl) hs hn ha
          cases r with
          | error e =>
              simp only [Client.opened, History.ofOpened, ha]
              exact hk.trans hf (hk.fail c₁ v e)
          | ok u =>
              simp only [Client.opened, History.ofOpened, ha]
              refine hk.trans hf ?_
              cases c₁.isDisposed v.supervisor with
              | true => exact hk.before (hk.release c₁ v.supervisor) (hk.left _ v)
              | false => exact hk.refl c₁

theorem answer (hk : Composes New R) (a : Answer α) (hs : v.supervisor.number < c.supervisors.length)
    (hn : v.stage = .opening → (c.supervisor v.supervisor).held = none)
    (hnew : ∀ id, a = .opened (.ok id) → New c id) : R c (.ofAnswer c v a) (c.answer v a).1 := by
  cases hv : v.stage with
  | queued => simpa only [Client.answer, History.ofAnswer, hv] using hk.refl c
  | opening =>
      cases a with
      | opened r =>
          simpa only [Client.answer, History.ofAnswer, hv] using
            hk.opened hs (hn hv) fun id hid => hnew id (congrArg _ hid)
      | acted | elapsed => simpa only [Client.answer, History.ofAnswer, hv] using hk.refl c
  | acting ch =>
      cases a with
      | acted r =>
          cases r with
          | ok a => simpa only [Client.answer, History.ofAnswer, hv, acted, finish_eq] using hk.left c v
          | error e => simpa only [Client.answer, History.ofAnswer, hv, acted] using hk.fail c v e
      | opened | elapsed => simpa only [Client.answer, History.ofAnswer, hv] using hk.refl c
  | delaying d =>
      cases a with
      | elapsed => simpa only [Client.answer, History.ofAnswer, hv] using hk.attempt c v
      | opened | acted => simpa only [Client.answer, History.ofAnswer, hv] using hk.refl c

theorem move? {p q : Participant α} {m : Move α} (hk : Composes New R) (h : c.move? p m = some (c', q))
    (hs : p.invocation.supervisor.number < c.supervisors.length)
    (hn : p.invocation.stage = .opening → (c.supervisor p.invocation.supervisor).held = none)
    (hnew : ∀ c₀ id, c.Opens m c₀ (.ok id) → New c₀ id) : R c (.ofMove c p.invocation m) c' := by
  have hm := moved_of_move? h
  generalize p.phase = ph at hm
  generalize hx : (c', q) = x at hm
  rw [show c' = x.1 from congrArg Prod.fst hx]
  cases hm with
  | enters => rw [after_fst]; exact hk.attempt c _
  | leaves => exact hk.left c _
  | looks | rests => exact hk.refl c
  | opens hv =>
      rw [after_fst]
      refine hk.trans (hk.openChannel c) (hk.opened ?_ ?_ fun id hid => hnew _ id (hid ▸ .own))
      · rw [(Keeps.openChannel c).length]; exact hs
      · rw [supervisor_openChannel]; exact hn hv
  | answers =>
      rw [after_fst]
      exact hk.answer _ hs hn fun id hid => hnew c id (hid ▸ .foreign (.ok id))

/-- A disposal, where the supervisor may be marked as disposed of. -/
theorem dispose (hk : Composes New R) (hd : R c [] (c.modify s ({ · with disposed := true }))) :
    R c (if c.isDisposed s then [] else .ofRelease c s) (c.dispose s) := by
  unfold Client.dispose
  split
  · exact hk.refl c
  · have hr := hk.trans hd (hk.before (hk.release _ s) (hk.record _ (r := ⟨.info, "persistent channel disposed", []⟩) rfl))
    rwa [List.nil_append, History.ofRelease, Supervisor.channel?, (held_modify_disposed c s s).1] at hr

end Composes

/-! ## Operations keep in step -/

/-- A client in step with a ledger gets by an operation into step with the ledger in which its acts are entered. -/
def Follows (c : Client) (h : History) (c' : Client) : Prop :=
  ∀ r : Ledger, c.Matches r → c'.Matches (r.enterAll h)

namespace Follows

theorem refl (c : Client) : Follows c [] c :=
  fun _ hm => hm

theorem trans (hf : Follows c h c') (hf' : Follows c' h' c'') : Follows c (h ++ h') c'' := by
  intro r hm
  rw [Ledger.enterAll_append]
  exact hf' _ (hf r hm)

theorem record (r : Log.Record) : Follows c [] (c.record r) :=
  fun _ hm => hm.same rfl rfl (fun _ => rfl) (fun _ _ _ => rfl)

theorem left (v : Invocation) : Follows c [] (c.left v) :=
  fun _ hm => hm.same rfl rfl (held_left c v) (fun s _ _ => (Keeps.left v).options s)

theorem refuse (c : Client) (s : SupervisorId) (id : ChannelId) :
    Follows c (if c.knows id then [(id, .refused s)] else []) (c.close id) := by
  intro r hm
  split
  · rename_i hk
    exact hm.refuse hk s
  · rename_i hk
    have hc : c.connection.channel? id = none := by simpa [knows] using hk
    have hcon : (c.close id).connection = c.connection := by
      simp only [Client.close, onChannel, Connection.deliver, Connection.modify, hc]
    refine hm.same (by rw [hcon]) ?_ (fun _ => rfl) (fun _ _ _ => rfl)
    rw [Client.close, events_onChannel, hc]
    exact List.append_nil _

theorem release (c : Client) (s : SupervisorId) : Follows c (.ofRelease c s) (c.closeHeld s) := by
  unfold History.ofRelease Supervisor.channel?
  cases hh : (c.supervisor s).held with
  | none =>
      rw [closeHeld_of_none hh]
      exact refl c
  | some hd => exact fun r hm => hm.closeHeld hh

theorem attach {r : Except TransportError Unit} (hs : s.number < c.supervisors.length)
    (hn : (c.supervisor s).held = none) (ha : c.attach s id = (c', r)) : Follows c (.ofAttach c s id) c' := by
  unfold History.ofAttach
  rw [ha]
  cases r with
  | error e =>
      rw [attach_error ha]
      exact refuse c s id
  | ok u => exact fun r hm => hm.attach hs hn ha

/-- Channels need not be new for that. -/
theorem composes : Composes (fun _ _ => True) Follows where
  refl := refl
  trans := trans
  left _ := left
  record _ _ _ := record _
  openChannel _ _ hm := hm.openChannel
  release := release
  attach _ := attach

theorem move? {p q : Participant α} {m : Move α} (h : c.move? p m = some (c', q))
    (hs : p.invocation.supervisor.number < c.supervisors.length)
    (hn : p.invocation.stage = .opening → (c.supervisor p.invocation.supervisor).held = none) :
    Follows c (.ofMove c p.invocation m) c' :=
  composes.move? h hs hn fun _ _ _ => trivial

theorem begun {q : Participant α} (h : c.Begun v c' q) : Follows c [] c' :=
  fun _ hm => hm.same (by cases h <;> rfl) (by cases h <;> rfl) h.held (fun s _ _ => h.keeps.options s)

/-! ## Deeds -/

theorem supervise (c : Client) (o : Options) : Follows c [] (c.addSupervisor o).1 := by
  refine fun _ hm => hm.same rfl rfl (fun s => ?_) (fun s hd hh => ?_)
  · rw [supervisor_addSupervisor]
    split
    · rw [supervisor_of_le (by omega)]
    · rfl
  · rw [supervisor_addSupervisor, if_neg (Nat.ne_of_lt (lt_of_held hh))]

theorem disposed (c : Client) (s : SupervisorId) : Follows c [] (c.modify s ({ · with disposed := true })) := by
  have hsame := held_modify_disposed c s
  exact fun _ hm => hm.same rfl rfl (fun s' => (hsame s').1) (fun s' _ _ => (hsame s').2)

theorem dispose (c : Client) (s : SupervisorId) :
    Follows c (if c.isDisposed s then [] else .ofRelease c s) (c.dispose s) :=
  composes.dispose (disposed c s)

theorem perform? {d : Deed} (h : c.perform? d = some c') : Follows c (.ofDeed c d) c' := by
  cases d with
  | supervise o => cases h; exact supervise c o
  | dispose s =>
      simp only [Client.perform?] at h
      split at h
      · cases h; exact dispose c s
      · cases h
  | cancel t =>
      cases h
      refine fun _ hm => hm.same ?_ ?_ (fun s => ?_) (fun s _ _ => ?_) <;>
        (unfold Client.cancel; split <;> rfl)
  | failNext e => cases h; exact fun _ hm => hm.same rfl rfl (fun _ => rfl) (fun _ _ _ => rfl)
  | openChannel => cases h; exact fun _ hm => hm.openChannel
  | confirmSelect id =>
      simp only [Client.perform?] at h
      cases hk : c.confirmSelect id with
      | error e => rw [hk] at h; cases h
      | ok c₁ => rw [hk] at h; cases h; exact fun _ hm => hm.confirm hk
  | signal id g =>
      simp only [Client.perform?] at h
      split at h
      · rename_i hk
        cases h
        exact fun _ hm => hm.raise hk g
      · cases h
  | close id =>
      simp only [Client.perform?] at h
      split at h
      · rename_i hk
        cases h
        exact fun _ hm => hm.close hk
      · cases h
  | listen id =>
      cases h
      exact fun _ hm => hm.visit (fun _ => rfl) fun _ _ => ⟨rfl, Nat.le_succ _, fun _ _ _ hst => hst.listen⟩
  | listenRecovery id =>
      cases h
      exact fun _ hm => hm.visit (fun _ => rfl) fun _ _ => ⟨rfl, Nat.le_succ _, fun _ _ _ hst => hst.listenRecovery⟩
  | unlisten id l =>
      simp only [Client.perform?] at h
      split at h
      · cases h
      · rename_i hl
        cases h
        refine fun _ hm => hm.visit (fun _ => rfl) fun ch hc => ⟨rfl, Nat.le_refl _, fun _ _ _ hst => ?_⟩
        rw [hc, Option.any_some] at hl
        exact hst.unlisten (eq_false_of_ne_true hl)
  | unlistenRecovery id l =>
      simp only [Client.perform?] at h
      split at h
      · cases h
      · rename_i hl
        cases h
        refine fun _ hm => hm.visit (fun _ => rfl) fun ch hc => ⟨rfl, Nat.le_refl _, fun _ _ _ hst => ?_⟩
        rw [hc, Option.any_some] at hl
        exact hst.unlistenRecovery (eq_false_of_ne_true hl)

end Follows

end Client

end BrokerClient
