import BrokerClient.Transport.Channel
import Mathlib.Data.List.Nodup
import Mathlib.Tactic.Tauto

/-!
# Who listens to a channel

A channel is known by what was done to it. A listener is attached to a table from its registration there until its
handle is removed from that table (`mem_table_run`), and a channel is open unless it was shut down after its last
recovery (`isOpen_run`). Both tables take their handles from one row of numbers (`numbers_handles`), so a handle is
that of one registration. A signal reaches each of the attached listeners once, and so does a close that finds the
channel open (`tells_who_listens`).
-/
namespace BrokerClient

namespace Channel

/-! ## Operations -/

inductive Table where
  | listeners
  | recoveryListeners
deriving DecidableEq

inductive Operation (α : Type) where
  | register (t : Table) (l : α)
  | remove (t : Table) (i : ListenerId)
  | confirmSelect
  | close
  | raise (g : Signal)

namespace Operation

variable {α : Type}

def registers : Operation α → Bool
  | .register _ _ => true
  | _ => false

def closes : Operation α → Bool
  | .close => true
  | _ => false

def shuts : Operation α → Bool
  | .close | .raise (.shutdown _) => true
  | _ => false

end Operation

/-- A channel after an operation, the handle that was given for a registration, and what was told to whom. -/
structure Effect (α : Type) where
  channel : Channel α
  handle : Option ListenerId := none
  told : Deliveries α := []

variable {α : Type} {c : Channel α} {o : Operation α} {ops later : List (Operation α)} {t t' : Table}
  {i : ListenerId} {l l' : α}

def table (c : Channel α) : Table → List (ListenerId × α)
  | .listeners => c.listeners
  | .recoveryListeners => c.recoveryListeners

/-- A channel changes before it tells anybody, so what listeners do to it in their turn is an operation that follows. -/
def perform (c : Channel α) : Operation α → Effect α
  | .register .listeners l => { channel := (c.addListener l).1, handle := (c.addListener l).2 }
  | .register .recoveryListeners l =>
    { channel := (c.addRecoveryListener l).1, handle := (c.addRecoveryListener l).2 }
  | .remove .listeners i => { channel := c.removeListener i }
  | .remove .recoveryListeners i => { channel := c.removeRecoveryListener i }
  | .confirmSelect => { channel := c.confirmSelect.toOption.getD c }
  | .close => { channel := c.close.1, told := c.close.2 }
  | .raise g => { channel := (c.raise g).1, told := (c.raise g).2 }

def run (c : Channel α) (ops : List (Operation α)) : Channel α :=
  ops.foldl (fun c o => (c.perform o).channel) c

/-- The handles that are given, in order. -/
def handles (c : Channel α) : List (Operation α) → List ListenerId
  | [] => []
  | o :: ops => (c.perform o).handle.toList ++ (c.perform o).channel.handles ops

theorem run_cons : c.run (o :: ops) = (c.perform o).channel.run ops :=
  rfl

/-! ## What was done -/

/-- The listener was registered in the table, its handle was given for that, and these operations came later. -/
def Registered (c : Channel α) (ops : List (Operation α)) (t : Table) (i : ListenerId) (l : α)
    (later : List (Operation α)) : Prop :=
  ∃ earlier, ops = earlier ++ .register t l :: later ∧ ((c.run earlier).perform (.register t l)).handle = some i

/-- The listener was registered in the table, and its handle was not removed from there since. -/
def Attached (c : Channel α) (ops : List (Operation α)) (t : Table) (i : ListenerId) (l : α) : Prop :=
  ∃ later, c.Registered ops t i l later ∧ .remove t i ∉ later

/-- Whatever shut the channel down, a recovery came later. -/
def LeftOpen (ops : List (Operation α)) : Prop :=
  ∀ earlier o later, ops = earlier ++ o :: later → o.shuts = true → .raise .recovery ∈ later

theorem not_registered_nil : ¬c.Registered [] t i l later := by
  rintro ⟨earlier, hops, -⟩
  simp at hops

theorem registered_cons : c.Registered (o :: ops) t i l later ↔
    (o = .register t l ∧ (c.perform o).handle = some i ∧ ops = later) ∨
      (c.perform o).channel.Registered ops t i l later := by
  constructor
  · rintro ⟨earlier, hops, hi⟩
    cases earlier with
    | nil =>
        obtain ⟨rfl, rfl⟩ := List.cons.inj hops
        exact .inl ⟨rfl, hi, rfl⟩
    | cons o' earlier =>
        obtain ⟨rfl, rfl⟩ := List.cons.inj hops
        exact .inr ⟨earlier, rfl, hi⟩
  · rintro (⟨rfl, hi, rfl⟩ | ⟨earlier, rfl, hi⟩)
    · exact ⟨[], rfl, hi⟩
    · exact ⟨o :: earlier, rfl, hi⟩

theorem not_attached_nil : ¬c.Attached [] t i l := by
  rintro ⟨later, h, -⟩
  exact not_registered_nil h

theorem attached_cons : c.Attached (o :: ops) t i l ↔
    (o = .register t l ∧ (c.perform o).handle = some i ∧ .remove t i ∉ ops) ∨
      (c.perform o).channel.Attached ops t i l := by
  constructor
  · rintro ⟨later, h, hr⟩
    rcases registered_cons.1 h with ⟨ho, hi, rfl⟩ | h
    · exact .inl ⟨ho, hi, hr⟩
    · exact .inr ⟨later, h, hr⟩
  · rintro (⟨ho, hi, hr⟩ | ⟨later, h, hr⟩)
    · exact ⟨ops, registered_cons.2 (.inl ⟨ho, hi, rfl⟩), hr⟩
    · exact ⟨later, registered_cons.2 (.inr h), hr⟩

theorem leftOpen_nil : LeftOpen ([] : List (Operation α)) := by
  intro earlier o later hops
  simp at hops

theorem leftOpen_cons : LeftOpen (o :: ops) ↔ (o.shuts = true → .raise .recovery ∈ ops) ∧ LeftOpen ops := by
  constructor
  · intro h
    exact ⟨h [] o ops rfl, fun earlier o' later hops => h (o :: earlier) o' later (congrArg (o :: ·) hops)⟩
  · rintro ⟨ho, h⟩ earlier o' later hops
    cases earlier with
    | nil =>
        obtain ⟨rfl, rfl⟩ := List.cons.inj hops
        exact ho
    | cons _ earlier => exact h earlier o' later (List.cons.inj hops).2

/-! ## One operation -/

theorem handle_register : (c.perform (.register t l)).handle = some ⟨c.nextListener⟩ := by
  cases t <;> rfl

theorem handle_perform : (c.perform o).handle = if o.registers then some ⟨c.nextListener⟩ else none := by
  cases o with
  | register t l => exact handle_register
  | remove t i => cases t <;> rfl
  | confirmSelect | close | raise g => rfl

theorem channel_confirmSelect (c : Channel α) :
    ∃ b, (c.perform .confirmSelect).channel = { c with confirming := b } := by
  simp only [perform, confirmSelect]
  split
  · exact ⟨true, rfl⟩
  · exact ⟨c.confirming, rfl⟩

/-- Registrations are counted by the handles that they take, and closes are counted as such. -/
theorem counters_perform :
    (c.perform o).channel.nextListener = (c.nextListener + if o.registers then 1 else 0) ∧
      (c.perform o).channel.closeCalls = c.closeCalls + if o.closes then 1 else 0 := by
  cases o with
  | register t l => cases t <;> exact ⟨rfl, rfl⟩
  | remove t i => cases t <;> exact ⟨rfl, rfl⟩
  | confirmSelect =>
      obtain ⟨b, hb⟩ := c.channel_confirmSelect
      rw [hb]
      exact ⟨rfl, rfl⟩
  | close => exact ⟨rfl, rfl⟩
  | raise g => cases g <;> exact ⟨rfl, rfl⟩

theorem isOpen_perform : (c.perform o).channel.isOpen = true ↔
    o = .raise .recovery ∨ (c.isOpen = true ∧ o.shuts = false) := by
  cases o with
  | register t l => cases t <;> simp [perform, addListener, addRecoveryListener, Operation.shuts]
  | remove t i => cases t <;> simp [perform, removeListener, removeRecoveryListener, Operation.shuts]
  | confirmSelect =>
      obtain ⟨b, hb⟩ := c.channel_confirmSelect
      simp [hb, Operation.shuts]
  | close => simp [perform, close, Operation.shuts]
  | raise g => cases g <;> simp [perform, raise, Operation.shuts]

theorem close_of_closed (h : c.isOpen = false) :
    c.perform .close = { channel := { c with closeCalls := c.closeCalls + 1 } } := by
  simp only [perform, close, h, Bool.false_eq_true, if_false]

/-! ## The tables after one operation -/

@[simp] theorem table_register : (c.perform (.register t l)).channel.table t' =
    if t = t' then c.table t' ++ [(⟨c.nextListener⟩, l)] else c.table t' := by
  cases t <;> cases t' <;> rfl

@[simp] theorem table_remove : (c.perform (.remove t i)).channel.table t' =
    if t = t' then (c.table t').filter (fun x => x.1 ≠ i) else c.table t' := by
  cases t <;> cases t' <;> rfl

@[simp] theorem table_confirmSelect : (c.perform .confirmSelect).channel.table t = c.table t := by
  obtain ⟨b, hb⟩ := c.channel_confirmSelect
  rw [hb]
  cases t <;> rfl

@[simp] theorem table_close : (c.perform .close).channel.table t = c.table t := by
  cases t <;> rfl

@[simp] theorem table_raise (g : Signal) : (c.perform (.raise g)).channel.table t = c.table t := by
  cases g <;> cases t <;> rfl

/-- An entry stays in a table unless its handle is removed from there, and one is added by a registration. -/
theorem mem_table_perform : (i, l) ∈ (c.perform o).channel.table t ↔
    ((i, l) ∈ c.table t ∧ o ≠ .remove t i) ∨ (o = .register t l ∧ (c.perform o).handle = some i) := by
  cases o with
  | register t' l' =>
      rw [table_register, handle_register]
      by_cases ht : t' = t
      · subst ht
        rw [if_pos rfl, List.mem_append, List.mem_singleton]
        constructor
        · rintro (h | h)
          · exact .inl ⟨h, nofun⟩
          · cases h
            exact .inr ⟨rfl, rfl⟩
        · rintro (⟨h, -⟩ | ⟨ho, hi⟩)
          · exact .inl h
          · cases ho
            cases hi
            exact .inr rfl
      · simp [ht]
  | remove t' j =>
      rw [table_remove]
      by_cases ht : t' = t
      · subst ht
        simp [eq_comm (a := i)]
      · simp [ht]
  | confirmSelect | close | raise g => simp

/-- An operation brings no handle into a table but the one that it gives. -/
theorem ids_perform_sublist :
    (((c.perform o).channel.table t).map Prod.fst).Sublist
      ((c.table t).map Prod.fst ++ (c.perform o).handle.toList) := by
  cases o with
  | register t' l =>
      rw [table_register, handle_register]
      split
      · rw [List.map_append]
        exact .refl _
      · exact List.sublist_append_left ..
  | remove t' i =>
      rw [table_remove]
      split
      · exact (List.filter_sublist.map _).trans (List.sublist_append_left ..)
      · exact List.sublist_append_left ..
  | confirmSelect | close | raise g => simp

/-- To remove a handle that is not in the table changes nothing. -/
theorem remove_of_notMem (h : ∀ l, (i, l) ∉ c.table t) : c.perform (.remove t i) = { channel := c } := by
  have hfilter : (c.table t).filter (fun x => x.1 ≠ i) = c.table t := by
    rw [List.filter_eq_self]
    rintro ⟨j, l⟩ hx
    simp only [ne_eq, decide_eq_true_eq]
    rintro rfl
    exact h l hx
  cases t with
  | listeners => exact congrArg (fun ls => ({ channel := { c with listeners := ls } } : Effect α)) hfilter
  | recoveryListeners =>
      exact congrArg (fun ls => ({ channel := { c with recoveryListeners := ls } } : Effect α)) hfilter

/-! ## Runs of operations -/

/-- A table holds what it held before, unless it was removed, and who was attached since. -/
theorem mem_table_run : (i, l) ∈ (c.run ops).table t ↔
    ((i, l) ∈ c.table t ∧ .remove t i ∉ ops) ∨ c.Attached ops t i l := by
  -- Who was attached by the first operation is there before all others, so the statement is about any channel.
  induction ops generalizing c with
  | nil => simp [run, not_attached_nil]
  | cons o ops ih =>
      rw [run_cons, ih, mem_table_perform, attached_cons, List.mem_cons, not_or, ne_comm]
      tauto

theorem isOpen_run : (c.run ops).isOpen = true ↔
    (c.isOpen = true ∨ .raise .recovery ∈ ops) ∧ LeftOpen ops := by
  induction ops generalizing c with
  | nil => simp [run, leftOpen_nil]
  | cons o ops ih =>
      rw [run_cons, ih, isOpen_perform, leftOpen_cons, List.mem_cons, eq_comm (a := Operation.raise .recovery)]
      have hrecovery : o = .raise .recovery → o.shuts = false := by
        rintro rfl
        rfl
      cases hs : o.shuts with
      | true =>
          have ho : o ≠ .raise .recovery := fun ho => Bool.noConfusion (hs.symm.trans (hrecovery ho))
          simp only [ho, Bool.true_eq_false, and_false, false_or, true_imp_iff]
          tauto
      | false =>
          simp only [and_true, Bool.false_eq_true, false_imp_iff, true_and]
          tauto

theorem closeCalls_run : (c.run ops).closeCalls = c.closeCalls + ops.countP Operation.closes := by
  induction ops generalizing c with
  | nil => rfl
  | cons o ops ih =>
      rw [run_cons, ih, counters_perform.2, List.countP_cons]
      omega

/-! ## Handles -/

/-- Both tables take their handles from one row of numbers. -/
theorem numbers_handles :
    (c.handles ops).map ListenerId.number = List.range' c.nextListener (ops.countP Operation.registers) := by
  induction ops generalizing c with
  | nil => rfl
  | cons o ops ih =>
      rw [handles, List.map_append, ih, handle_perform, counters_perform.1, List.countP_cons]
      cases o.registers <;> rfl

theorem nodup_handles : (c.handles ops).Nodup := by
  apply List.Nodup.of_map ListenerId.number
  rw [numbers_handles]
  exact List.nodup_range'

/-- Handles stay apart in words of 64 bits as long as the words suffice. -/
theorem nodup_words (h : c.nextListener + ops.countP Operation.registers ≤ UInt64.size) :
    ((c.handles ops).map (fun i => UInt64.ofNat i.number)).Nodup := by
  have hwords : (c.handles ops).map (fun i => UInt64.ofNat i.number) =
      (List.range' c.nextListener (ops.countP Operation.registers)).map UInt64.ofNat := by
    rw [← numbers_handles, List.map_map]
    rfl
  have hlt {n : Nat} (hn : n ∈ List.range' c.nextListener (ops.countP Operation.registers)) : n < UInt64.size :=
    Nat.lt_of_lt_of_le (List.mem_range'_1.1 hn).2 h
  rw [hwords]
  refine List.Nodup.map_on (fun m hm n hn hmn => ?_) List.nodup_range'
  rw [← UInt64.toNat_ofNat_of_lt' (hlt hm), hmn, UInt64.toNat_ofNat_of_lt' (hlt hn)]

theorem ids_run_sublist (c : Channel α) (ops : List (Operation α)) (t : Table) :
    (((c.run ops).table t).map Prod.fst).Sublist ((c.table t).map Prod.fst ++ c.handles ops) := by
  induction ops generalizing c with
  | nil => exact List.sublist_append_left ..
  | cons o ops ih =>
      rw [run_cons, handles, ← List.append_assoc]
      exact (ih _).trans (ids_perform_sublist.append_right _)

theorem Registered.mem_handles (h : c.Registered ops t i l later) : i ∈ c.handles ops := by
  induction ops generalizing c with
  | nil => exact absurd h not_registered_nil
  | cons o ops ih =>
      rw [handles, List.mem_append]
      rcases registered_cons.1 h with ⟨-, hi, -⟩ | h
      · exact .inl (Option.mem_toList.2 hi)
      · exact .inr (ih h)

/-- A handle is that of one registration. -/
theorem Registered.unique {later' : List (Operation α)} (h : c.Registered ops t i l later)
    (h' : c.Registered ops t' i l' later') : t = t' ∧ l = l' ∧ later = later' := by
  induction ops generalizing c with
  | nil => exact absurd h not_registered_nil
  | cons o ops ih =>
      -- The handle that is given for the first operation is not given for another one.
      have hfirst : (c.perform o).handle = some i → i ∉ (c.perform o).channel.handles ops := by
        intro hi
        have hn : (c.handles (o :: ops)).Nodup := nodup_handles
        rw [handles, hi] at hn
        exact (List.nodup_cons.1 hn).1
      rcases registered_cons.1 h with ⟨rfl, hi, rfl⟩ | h <;> rcases registered_cons.1 h' with ⟨ho, hi', rfl⟩ | h'
      · cases ho
        exact ⟨rfl, rfl, rfl⟩
      · exact absurd h'.mem_handles (hfirst hi)
      · exact absurd h.mem_handles (hfirst hi')
      · exact ih h h'

end Channel

/-! ## Who is told -/

def Signal.table : Signal → Channel.Table
  | .ack _ _ | .nack _ _ | .returned _ | .shutdown _ => .listeners
  | .recovery => .recoveryListeners

def Signal.notice : Signal → Notice
  | .ack tag multiple => .ack tag multiple
  | .nack tag multiple => .nack tag multiple
  | .returned r => .returned r
  | .shutdown reason => .shutdown (some reason)
  | .recovery => .recovered

namespace Channel

variable {α : Type} {c : Channel α} {ops : List (Operation α)}

theorem told_raise (c : Channel α) (g : Signal) :
    (c.perform (.raise g)).told = (c.table g.table).map (fun x => (x.2, g.notice)) := by
  cases g <;> rfl

theorem told_close (h : c.isOpen = true) :
    (c.perform .close).told = (c.table .listeners).map (fun x => (x.2, .shutdown (some .goodbye))) := by
  simp only [perform, close, h, if_true]
  rfl

/-- The notice is told to each of the attached listeners once, in whatever order, and to nobody else. -/
def Reaches (c : Channel α) (ops : List (Operation α)) (t : Table) (n : Notice) (ds : Deliveries α) : Prop :=
  ∃ ls : List (ListenerId × α), (ls.map Prod.fst).Nodup ∧ (∀ i l, (i, l) ∈ ls ↔ c.Attached ops t i l) ∧
    ds = ls.map (fun x => (x.2, n))

theorem mem_table_iff_attached (hc : ∀ t, c.table t = []) (t : Table) (i : ListenerId) (l : α) :
    (i, l) ∈ (c.run ops).table t ↔ c.Attached ops t i l := by
  simp [mem_table_run, hc]

theorem reaches_table (hc : ∀ t, c.table t = []) (t : Table) (n : Notice) :
    c.Reaches ops t n (((c.run ops).table t).map (fun x => (x.2, n))) := by
  have hsub : (((c.run ops).table t).map Prod.fst).Sublist (c.handles ops) := by
    simpa [hc] using ids_run_sublist c ops t
  exact ⟨_, hsub.nodup nodup_handles, mem_table_iff_attached hc t, rfl⟩

/-- What a channel that nobody listened to at first knows and tells after the operations. -/
structure Bookkeeping (c : Channel α) (ops : List (Operation α)) : Prop where
  /-- Also as words of 64 bits no two handles are the same, of whichever table they are. -/
  handles : ((c.handles ops).map (fun i => UInt64.ofNat i.number)).Nodup
  attached : ∀ t i l, (i, l) ∈ (c.run ops).table t ↔ c.Attached ops t i l
  /-- To remove a handle from a table changes nothing unless somebody is attached there with it. -/
  unknown : ∀ t i, (∀ l, ¬c.Attached ops t i l) → (c.run ops).perform (.remove t i) = { channel := c.run ops }
  foreign : ∀ t t' i l later, c.Registered ops t' i l later → t' ≠ t →
    (c.run ops).perform (.remove t i) = { channel := c.run ops }
  told : ∀ g, c.Reaches ops g.table g.notice ((c.run ops).perform (.raise g)).told
  isOpen : (c.run ops).isOpen = true ↔ LeftOpen ops
  closing : LeftOpen ops → c.Reaches ops .listeners (.shutdown (some ⟨.application, 200, "Goodbye"⟩))
    ((c.run ops).perform .close).told
  closed : ¬LeftOpen ops → (c.run ops).perform .close =
    { channel := { c.run ops with closeCalls := (c.run ops).closeCalls + 1 } }
  closes : (c.run ops).closeCalls = ops.countP Operation.closes

/-- From when it is opened, and as long as there are words for its handles, a channel tells each signal to those who
listen to it and to nobody else. To close it tells them of a shutdown if it is open, and is only counted if not. -/
theorem tells_who_listens (id : ChannelId) (recoverable : Bool) (ops : List (Operation α))
    (h : ops.countP Operation.registers < UInt64.size) : ({ id, recoverable } : Channel α).Bookkeeping ops := by
  have hc : ∀ t, ({ id, recoverable } : Channel α).table t = [] := by
    intro t
    cases t <;> rfl
  have hunknown (t : Table) (i : ListenerId) (hi : ∀ l, ¬({ id, recoverable } : Channel α).Attached ops t i l) :=
    remove_of_notMem fun l hl => hi l ((mem_table_iff_attached hc t i l).1 hl)
  have hopen : (({ id, recoverable } : Channel α).run ops).isOpen = true ↔ LeftOpen ops := by simp [isOpen_run]
  refine ⟨nodup_words (Nat.one_add_le_iff.2 h), mem_table_iff_attached hc, hunknown, ?foreign, ?told, hopen, ?closing,
    ?closed, ?closes⟩
  case foreign =>
    rintro t t' i l later hr ht
    refine hunknown t i fun l' hl => ?_
    obtain ⟨later', hr', -⟩ := hl
    exact ht (hr.unique hr').1
  case told =>
    intro g
    rw [told_raise]
    exact reaches_table hc g.table g.notice
  case closing =>
    intro hl
    rw [told_close (hopen.2 hl)]
    exact reaches_table hc .listeners _
  case closed =>
    intro hl
    exact close_of_closed (eq_false_of_ne_true (mt hopen.1 hl))
  case closes => exact closeCalls_run.trans (Nat.zero_add _)

def firstChannel : Channel String :=
  { id := ⟨1⟩, recoverable := true }

/-- A handle is removed from the table that it does not belong to, and after a recovery one from its own. -/
def reopened : List (Operation String) :=
  [.register .listeners "ledger", .register .recoveryListeners "ledger",
    .raise (.shutdown ⟨.peer, 320, "closed"⟩), .close, .remove .listeners ⟨2⟩, .register .listeners "audit",
    .raise .recovery, .remove .listeners ⟨1⟩]

theorem tells_who_listens_reopened : reopened.countP Operation.registers < UInt64.size ∧
    firstChannel.Attached reopened .listeners ⟨3⟩ "audit" ∧ ¬firstChannel.Attached reopened .listeners ⟨1⟩ "ledger" ∧
    firstChannel.Reaches reopened .recoveryListeners .recovered [("ledger", .recovered)] ∧ LeftOpen reopened ∧
    firstChannel.Reaches reopened .listeners (.shutdown (some ⟨.application, 200, "Goodbye"⟩))
      [("audit", .shutdown (some ⟨.application, 200, "Goodbye"⟩))] := by
  have hn : reopened.countP Operation.registers < UInt64.size := by decide
  have h : firstChannel.Bookkeeping reopened := tells_who_listens ⟨1⟩ true reopened hn
  have hopen : LeftOpen reopened := h.isOpen.1 rfl
  have hgone : (⟨1⟩, "ledger") ∉ (firstChannel.run reopened).table .listeners := by decide
  exact ⟨hn, (h.attached ..).1 (List.mem_singleton_self _), mt (h.attached ..).2 hgone, h.told .recovery, hopen,
    h.closing hopen⟩

end Channel

end BrokerClient
