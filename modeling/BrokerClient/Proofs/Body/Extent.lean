import BrokerClient.Proofs.Body.MsgPack

/-!
# Where MessagePack octets end

A body is read of the same octets whatever is behind them, and what is behind them is left (`read?_append`). So more
octets do not matter (`ofOctets?_append`), and with fewer than there are nothing is read (`ofOctets?_of_prefix`).
-/
namespace BrokerClient.Body.MsgPack

open Text (Octets utf8 ofUtf8?)

variable {α : Type} {more : Octets} {read read' : Octets → Option (Body × Octets)}

/-- Where the one reads something, the other reads the same of longer octets and leaves all that is behind it. -/
def Extends (more : Octets) (read read' : Octets → Option (α × Octets)) : Prop :=
  ∀ bs a rest, read bs = some (a, rest) → read' (bs ++ more) = some (a, rest ++ more)

namespace Extends

theorem takeOctets? (n : Nat) : Extends more (takeOctets? n) (takeOctets? n) := by
  intro bs ds rest h
  simp only [MsgPack.takeOctets?] at h
  split at h
  · next hn =>
    cases h
    have hle : n ≤ bs.length := by
      rw [List.length_take] at hn
      omega
    simp only [MsgPack.takeOctets?, List.take_append_of_le_length hle, List.drop_append_of_le_length hle, hn, if_true]
  · cases h

theorem readWord? (width : Nat) : Extends more (readWord? width) (readWord? width) := by
  intro bs n rest h
  obtain ⟨⟨ds, rest⟩, htake, heq⟩ := Option.map_eq_some_iff.1 h
  cases heq
  simp only [MsgPack.readWord?, takeOctets? width bs ds rest htake, Option.map_some]

theorem readLength? (width length : Nat) : Extends more (readLength? width length) (readLength? width length) := by
  intro bs n rest h
  unfold MsgPack.readLength? at h ⊢
  split at h
  · next hw =>
    cases h
    rw [if_pos hw]
  · next hw =>
    rw [if_neg hw]
    exact readWord? width bs n rest h

theorem pure (a : α) : Extends more (fun bs => some (a, bs)) fun bs => some (a, bs) := by
  intro bs b rest h
  cases h
  rfl

/-- What comes next is read of what is left. -/
theorem bind {β : Type} {first first' : Octets → Option (α × Octets)} {next next' : α → Octets → Option (β × Octets)}
    (h : Extends more first first') (hnext : ∀ a, Extends more (next a) (next' a)) :
    Extends more (fun bs => first bs >>= fun r => next r.1 r.2) fun bs => first' bs >>= fun r => next' r.1 r.2 := by
  intro bs b rest hb
  obtain ⟨⟨a, bs'⟩, hfirst, hrest⟩ := Option.bind_eq_some_iff.1 hb
  simp only [h bs a bs' hfirst, Option.bind_eq_bind, Option.bind_some]
  exact hnext a bs' b rest hrest

/-- What was read may be none of what it has to be. -/
theorem checked {β : Type} (o : Option β) (f : β → α) :
    Extends more (fun bs => o >>= fun b => some (f b, bs)) fun bs => o >>= fun b => some (f b, bs) := by
  intro bs a rest h
  obtain ⟨b, rfl, heq⟩ := Option.bind_eq_some_iff.1 h
  cases heq
  rfl

theorem readString? (width length : Nat) : Extends more (readString? width length) (readString? width length) :=
  bind (readLength? width length) fun n => bind (takeOctets? n) fun content => checked (ofUtf8? content) id

theorem readKey? : Extends more readKey? readKey? := by
  intro bs k rest h
  cases bs with
  | nil => cases h
  | cons tag bs =>
      simp only [List.cons_append, MsgPack.readKey?] at h ⊢
      split at h
      · exact readString? _ _ bs k rest h
      · cases h

theorem readItems? (h : Extends more read read') (n : Nat) (done : List Body) :
    Extends more (readItems? read n done) (readItems? read' n done) := by
  induction n generalizing done with
  | zero => exact pure done.reverse
  | succ n ih =>
      intro bs xs rest hxs
      simp only [MsgPack.readItems?] at hxs ⊢
      split at hxs
      · next x bs' hx =>
        simp only [h bs x bs' hx]
        exact ih (x :: done) bs' xs rest hxs
      · cases hxs

theorem readMembers? (h : Extends more read read') (n : Nat) (done : List (String × Body)) :
    Extends more (readMembers? read n done) (readMembers? read' n done) := by
  induction n generalizing done with
  | zero => exact pure done.reverse
  | succ n ih =>
      intro bs ms rest hms
      simp only [MsgPack.readMembers?] at hms ⊢
      split at hms
      · next k bs' hk =>
        simp only [readKey? bs k bs' hk]
        split at hms
        · next x bs'' hx =>
          simp only [h bs' x bs'' hx]
          exact ih ((k, x) :: done) bs'' ms rest hms
        · cases hms
      · cases hms

/-- A deeper reader reads what another one does, and with more octets behind it the same. -/
theorem read? {depth depth' : Nat} (hle : depth ≤ depth') : Extends more (read? depth) (read? depth') := by
  induction depth using Nat.strongRecOn generalizing depth' with
  | ind depth ih =>
      have hinner : ∀ d, depth = d + 1 → ∃ d', depth' = d' + 1 ∧ Extends more (MsgPack.read? d) (MsgPack.read? d') := by
        rintro d rfl
        obtain ⟨k, rfl⟩ := Nat.exists_eq_add_of_le' hle
        exact ⟨k + d, rfl, ih d (Nat.lt_succ_self d) (Nat.le_add_left d k)⟩
      intro bs b rest h
      cases bs with
      | nil =>
          rw [MsgPack.read?] at h
          cases h
      | cons tag bs =>
          simp only [List.cons_append, MsgPack.read?] at h ⊢
          split at h
          · cases h
          · exact pure _ bs b rest h
          · next width _ =>
            exact bind (readWord? width) (fun n => pure (number (.natural (UInt64.ofNat n)))) bs b rest h
          · next width _ =>
            exact bind (readWord? width) (fun n => checked (Number.ofInt? (signedOf width n)) number) bs b rest h
          · exact bind (readWord? 4) (fun n => pure (floatBody (.ofSingle (UInt32.ofNat n)))) bs b rest h
          · exact bind (readWord? 8) (fun n => pure (floatBody ⟨UInt64.ofNat n⟩)) bs b rest h
          · next width length _ => exact bind (readString? width length) (fun s => pure (string s)) bs b rest h
          -- Only containers use the depth up.
          · next width length _ =>
            cases depth with
            | zero => cases h
            | succ depth =>
                obtain ⟨depth', rfl, hread⟩ := hinner depth rfl
                exact bind (readLength? width length)
                  (fun n => bind (readItems? hread n []) fun xs => pure (array xs)) bs b rest h
          · next width length _ =>
            cases depth with
            | zero => cases h
            | succ depth =>
                obtain ⟨depth', rfl, hread⟩ := hinner depth rfl
                exact bind (readLength? width length)
                  (fun n => bind (readMembers? hread n []) fun ms => pure (object (Entries.ofPairs ms))) bs b rest h

end Extends

/-! ## Too many octets and too few -/

variable {b : Body} {bs rest q : Octets}

theorem read?_append {depth depth' : Nat} (hle : depth ≤ depth') (h : read? depth bs = some (b, rest))
    (more : Octets) : read? depth' (bs ++ more) = some (b, rest ++ more) :=
  Extends.read? hle bs b rest h

/-- What is behind a body is not looked at. -/
theorem ofOctets?_append (h : ofOctets? bs = some b) (more : Octets) : ofOctets? (bs ++ more) = some b := by
  obtain ⟨⟨b, rest⟩, hread, rfl⟩ := Option.map_eq_some_iff.1 h
  simp only [ofOctets?, read?_append (Nat.le_refl depthLimit) hread more, Option.map_some]

/-- Nothing is read of some but not all of the octets of a body, however deep it nests. -/
theorem ofOctets?_of_prefix (ho : b.Ordered) (hs : b.Throughout IsShort) (hq : q <+: octets b) (hne : q ≠ octets b) :
    ofOctets? q = none := by
  obtain ⟨more, hmore⟩ := hq
  rw [ofOctets?, Option.map_eq_none_iff, Option.eq_none_iff_forall_ne_some]
  rintro ⟨b', rest⟩ h
  -- A reader that is deep enough for the body leaves nothing of all its octets.
  have hwhole := read?_octets b ho hs (max depthLimit b.depth) []
  have hlong := read?_append (Nat.le_max_left depthLimit b.depth) h more
  rw [if_pos (Nat.le_max_right _ _), List.append_nil, ← hmore, hlong, Option.some_inj, Prod.mk.injEq] at hwhole
  obtain ⟨-, hnil⟩ := List.append_eq_nil_iff.1 hwhole.2
  rw [hnil, List.append_nil] at hmore
  exact hne hmore

end BrokerClient.Body.MsgPack
