import BrokerClient.Proofs.Simulation.Turn
import BrokerClient.Simulation.Run

/-!
# Simulations are scenes

Every step of a simulation is a run of the scene that mirrors it (`Mirrors.step`). So what holds of all
scenes holds of all simulations, whatever scripts, hooks and steps they have (`run_of_simulation`). And what
holds only of scenes in which the connection opens all channels holds of all simulations without hooks
(`run_of_hookless`).
-/
namespace BrokerClient.Simulation

variable {α : Type} {w : World α} {sc : Scene (ChannelId × α)} {direct : Bool}

namespace World

theorem task?_append (w : World α) (t : Task α) (i : InvocationId) :
    World.task? { w with tasks := w.tasks ++ [t] } i = if i = ⟨w.tasks.length⟩ then some t else w.task? i := by
  obtain ⟨n⟩ := i
  simp only [task?, InvocationId.mk.injEq]
  split
  · rename_i hn
    rw [hn, List.getElem?_concat_length]
  · rename_i hn
    rcases Nat.lt_or_gt_of_ne hn with hlt | hgt
    · exact List.getElem?_append_left hlt
    · rw [List.getElem?_eq_none (by simp; omega), List.getElem?_eq_none (by omega)]

end World

namespace Mirrors

/-! ## Turns and time -/

theorem drain (n : Nat) (h : Mirrors direct none w sc) : sc.Onward (Mirrors direct none (w.drain n)) := by
  induction n generalizing w sc with
  | zero => exact .here h
  | succ n ih =>
      simp only [World.drain]
      split
      · rename_i i rest _
        have h' : Mirrors direct none { w with ready := rest } sc := h.alike ⟨rfl, rfl, rfl, rfl, rfl⟩
        exact (h'.turn i).trans fun sc₁ h₁ => ih h₁
      · split
        · exact .here h
        · exact ih (h.alike ⟨rfl, rfl, rfl, rfl, rfl⟩)

theorem settle (h : Mirrors direct none w sc) : sc.Onward (Mirrors direct none w.settle) :=
  h.drain _

theorem moveTo (h : Mirrors direct none w sc) (time : Nat) : Mirrors direct none (w.moveTo time) sc := by
  refine Mirrors.alike ?_ (World.alike_wakeAll _ _)
  exact h.alike ⟨rfl, rfl, rfl, rfl, rfl⟩

theorem pass (stop : World α → Bool) (limit : Option Nat) (n : Nat) (h : Mirrors direct none w sc) :
    sc.Onward (Mirrors direct none (w.pass stop limit n)) := by
  induction n generalizing w sc with
  | zero => exact .here h
  | succ n ih =>
      refine h.settle.trans fun sc₁ h₁ => ?_
      simp only [World.pass]
      split
      · exact .here h₁
      · split
        · exact .here h₁
        · exact .here (h₁.moveTo _)
        · exact ih (h₁.moveTo _)
        · split
          · exact .here (h₁.moveTo _)
          · exact ih (h₁.moveTo _)

/-! ## Steps -/

theorem rename {names : List (String × SupervisorId)} (h : Mirrors direct none w sc)
    (hn : ∀ name s, Entries.get? names name = some s → s.number < w.client.supervisors.length) :
    Mirrors direct none { w with names } sc :=
  { h with names := hn }

theorem supervise (h : Mirrors direct none w sc) (name : String) (o : Options) :
    sc.Onward (Mirrors direct none (w.supervise name o)) := by
  refine (h.deed (d := .supervise o) (Bool.and_false _) rfl).trans fun sc₁ h₁ => ?_
  have hlen : (w.client.addSupervisor o).1.supervisors.length = w.client.supervisors.length + 1 := by
    simp only [Client.addSupervisor, List.length_append, List.length_singleton]
  have h₂ : Mirrors direct none
      { w with client := (w.client.addSupervisor o).1,
               names := Entries.insert name (w.client.addSupervisor o).2 w.names } sc₁ := by
    refine h₁.rename fun name' s hs => ?_
    rw [Entries.get?_insert] at hs
    split at hs
    · cases hs
      rw [hlen]
      exact Nat.lt_succ_self _
    · exact h₁.names name' s hs
  simp only [World.supervise]
  split
  · rename_i s hs
    exact h₂.forget (h₁.names name s hs)
  · exact .here h₂

theorem drop (h : Mirrors direct none w sc) (name : String) : sc.Onward (Mirrors direct none (w.drop name)) := by
  unfold World.drop
  split
  · rename_i s hs
    have h' : Mirrors direct none { w with names := Entries.erase name w.names } sc := by
      refine h.rename fun name' s' hs' => ?_
      rw [Entries.get?_erase] at hs'
      split at hs'
      · cases hs'
      · exact h.names name' s' hs'
    exact h'.forget (h.names name s hs)
  · exact .here h

theorem spawn (h : Mirrors direct none w sc) (name supervisor : String) (script : Script α) (token : Option Token) :
    Mirrors direct none (w.spawn name supervisor script token) sc := by
  unfold World.spawn
  split
  · exact h
  · rename_i s hs
    refine Mirrors.alike ?_ (World.alike_wake _ _)
    refine { h with errands := ?_, ids := ?_, tasks := ?_, inHand := by simp }
    · intro hd i t ht
      rw [World.task?_append] at ht
      split at ht
      · cases ht
        rfl
      · exact h.errands hd i t ht
    · intro i t ht
      rw [World.task?_append] at ht
      split at ht
      · rename_i hi
        cases ht
        exact hi.symm
      · exact h.ids i t ht
    · intro i _
      rw [World.task?_append]
      have hplays := h.tasks i (by simp)
      split
      · -- Nobody had this number before.
        rename_i hi
        have hnew : w.task? i = none := by
          rw [World.task?, hi]
          exact List.getElem?_eq_none (Nat.le_refl _)
        rw [hnew] at hplays
        generalize sc.participants i = p at hplays ⊢
        cases hplays
        exact .unbegun (h.names supervisor s hs) rfl rfl rfl
      · exact hplays

theorem perform (h : Mirrors direct none w sc) (s : World.Step α) :
    sc.Onward (Mirrors direct none (w.perform s).1) := by
  cases s with
  | supervise name o => exact h.supervise name o
  | spawn task s script token => exact .here (h.spawn task s script token)
  | invoke task s script token => exact (h.spawn task s script token).pass _ _ _
  | join task limit => exact h.pass _ _ _
  | sleep ms => exact h.pass _ _ _
  | openGate name => exact .here (h.openGate name)
  | cancel t => exact h.cancel t
  | dispose name => exact h.disposeNamed name
  | drop name => exact h.drop name
  | failNext e => exact h.deed (d := .failNext e) (Bool.and_false _) rfl
  | signal ch s => exact h.raise ch s
  | close ch => exact h.close ch
  | look => exact .here h

theorem step (h : Mirrors direct none w sc) (s : World.Step α) : sc.Onward (Mirrors direct none (w.step s).1) :=
  (h.perform s).trans fun _ h' => h'.settle

end Mirrors

/-! ## Whole simulations -/

namespace World

def start (recoverable : Bool) (hooks : List Hook) : World α :=
  { client := { connection := { recoverable } }, hooks }

def run (w : World α) (ss : List (Step α)) : World α :=
  ss.foldl (fun w s => (w.step s).1) w

end World

theorem mirrors_start (recoverable direct : Bool) {hooks : List Hook} (hh : direct = true → hooks = []) :
    Mirrors direct none (World.start (α := α) recoverable hooks) (Scene.start recoverable direct) := by
  refine ⟨.start recoverable direct, rfl, hh, ?_, rfl, ?_, ?_, ?_, fun _ _ => .nobody, by simp⟩
  · intro _ i t ht
    cases ht
  · intro name s hs
    cases hs
  · intro name i hi
    cases hi
  · intro i t ht
    cases ht

namespace Mirrors

theorem run (ss : List (World.Step α)) (h : Mirrors direct none w sc) :
    sc.Onward (Mirrors direct none (w.run ss)) := by
  induction ss generalizing w sc with
  | nil => exact .here h
  | cons s ss ih => exact (h.step s).trans fun _ h' => ih h'

/-- A task that is at its end has its outcome in the scene too. -/
theorem ended {i : InvocationId} {t : Task α} {o : Outcome (ChannelId × α)} {time : Nat} (h : Mirrors direct none w sc)
    (ht : w.task? i = some t) (ho : t.outcome = some (o, time)) : ∃ v, sc.participants i = some ⟨v, .ended o⟩ := by
  have hplays := h.tasks i (by simp)
  rw [ht] at hplays
  generalize sc.participants i = p at hplays ⊢
  cases hplays with
  | unbegun _ _ _ ho' => rw [ho] at ho'; cases ho'
  | underWay _ ho' => rw [ho] at ho'; cases ho'
  | ended ho' =>
      rw [ho] at ho'
      cases ho'
      exact ⟨_, rfl⟩

end Mirrors

/-- What a simulation comes to, a run of a scene comes to: the same client, and each task that is at its end
with its outcome. -/
theorem run_of_simulation (recoverable : Bool) (hooks : List Hook) (ss : List (World.Step α)) :
    ∃ es sc, (Scene.start recoverable false).run es = some sc ∧
      sc.client = ((World.start recoverable hooks).run ss).client ∧
      ∀ i t o time, ((World.start recoverable hooks).run ss).task? i = some t → t.outcome = some (o, time) →
        ∃ v, sc.participants i = some ⟨v, .ended o⟩ := by
  obtain ⟨es, sc, hrun, h⟩ := (mirrors_start recoverable false nofun).run ss
  exact ⟨es, sc, hrun, h.client, fun i t o time ht ho => h.ended ht ho⟩

/-- If there are no hooks it is a scene in which the connection opens all channels. -/
theorem run_of_hookless (recoverable : Bool) (ss : List (World.Step α)) :
    ∃ es sc, (Scene.start recoverable true).run es = some sc ∧
      sc.client = ((World.start recoverable []).run ss).client ∧
      ∀ i t o time, ((World.start recoverable []).run ss).task? i = some t → t.outcome = some (o, time) →
        ∃ v, sc.participants i = some ⟨v, .ended o⟩ := by
  obtain ⟨es, sc, hrun, h⟩ := (mirrors_start recoverable true fun _ => rfl).run ss
  exact ⟨es, sc, hrun, h.client, fun i t o time ht ho => h.ended ht ho⟩

end BrokerClient.Simulation
