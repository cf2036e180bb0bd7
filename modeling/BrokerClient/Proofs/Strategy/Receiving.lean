import BrokerClient.Proofs.Message.Candidates
import BrokerClient.Proofs.Strategy.Versioned

/-!
# Packets of any origin

What a versioned strategy makes of a packet that anybody may have written, with any text in its header and any payload
(`VersionedStrategy.Reads`). The first known one of the names decides, also if the payload is none of its type
(`reads_carried_names`).
-/
namespace BrokerClient

/-! ## The first known name -/

/-- The first of the names that is known stands for the type. -/
def TypeNames.FirstKnown (names : TypeNames) (wire : List String) (t : MessageType) : Prop :=
  ∃ before name after, wire = before ++ name :: after ∧ (∀ n ∈ before, ¬names.Knows n) ∧ names.typeOf name = .ok t

namespace TypeProperty

variable {names : TypeNames} {q : TypeProperty} {t : MessageType}

theorem resolve_eq_ok_iff : q.resolve names = .ok t ↔ names.FirstKnown q.candidates t := by
  constructor
  · intro h
    unfold resolve at h
    split at h
    · rename_i found hfind
      cases h
      obtain ⟨before, name, after, hsplit, hname, hbefore⟩ := List.findSome?_eq_some_iff.1 hfind
      refine ⟨before, name, after, hsplit, fun n hn => typeOf?_eq_none.1 (hbefore n hn), ?_⟩
      unfold typeOf? at hname
      split at hname
      · rename_i hok
        cases hname
        exact hok
      · cases hname
    · cases h
  · rintro ⟨before, name, after, hsplit, hbefore, hname⟩
    exact resolve_of_knows hsplit hbefore hname

theorem resolve_eq_error_iff {e : UnknownType} :
    q.resolve names = .error e ↔ (∀ n ∈ q.candidates, ¬names.Knows n) ∧ e = ⟨q.candidates⟩ := by
  constructor
  · intro h
    have hunknown : ∀ n ∈ q.candidates, ¬names.Knows n := by
      unfold resolve at h
      split at h
      · cases h
      · rename_i hfind
        exact fun n hn => typeOf?_eq_none.1 (List.findSome?_eq_none_iff.1 hfind n hn)
    rw [resolve_of_unknown hunknown] at h
    cases h
    exact ⟨hunknown, rfl⟩
  · rintro ⟨hunknown, rfl⟩
    exact resolve_of_unknown hunknown

end TypeProperty

namespace VersionedStrategy

open Strategy TypeProperty

variable {s : VersionedStrategy} {packet : Packet} {wire : List String} {result : Except MessageError Message}

theorem deserialize_of_undecodable {t : MessageType} {e : MessageError}
    (ht : (ofProperties packet.properties).resolve s.names = .ok t)
    (hb : decodeBody s.codec t packet.payload = .error e) : s.deserialize packet = .error e := by
  simp only [deserialize, ht, hb]
  rfl

/-! ## Packets -/

/-- What becomes of a packet that carries these names. A payload that is none of the type that the first known name
stands for is an error, whatever the names behind it stand for. -/
inductive Reads (s : VersionedStrategy) (packet : Packet) (wire : List String) : Except MessageError Message → Prop where
  | unknown (h : ∀ n ∈ wire, ¬s.names.Knows n) : Reads s packet wire (.error (.unknownType ⟨wire⟩))
  | bodiless {t : MessageType} (ht : s.names.FirstKnown wire t) (hp : packet.payload = []) :
      Reads s packet wire (.ok ⟨t, none, packet.properties⟩)
  | decoded {t : MessageType} {b : Body} (ht : s.names.FirstKnown wire t) (hp : packet.payload ≠ [])
      (hd : s.codec.decode t packet.payload = .ok b) : Reads s packet wire (.ok ⟨t, some b, packet.properties⟩)
  | undecodable {t : MessageType} {reason : String} (ht : s.names.FirstKnown wire t) (hp : packet.payload ≠ [])
      (hd : s.codec.decode t packet.payload = .error reason) : Reads s packet wire (.error (.decode t reason))

theorem Reads.deserialize (h : s.Reads packet (ofProperties packet.properties).candidates result) :
    s.deserialize packet = result := by
  cases h with
  | unknown hunknown => exact deserialize_of_unknown (resolve_of_unknown hunknown)
  | bodiless ht hp => exact deserialize_of_resolve (resolve_eq_ok_iff.2 ht) (by rw [hp]; rfl)
  | decoded ht hp hd => exact deserialize_of_resolve (resolve_eq_ok_iff.2 ht) (decodeBody_of_decode hp hd)
  | undecodable ht hp hd => exact deserialize_of_undecodable (resolve_eq_ok_iff.2 ht) (decodeBody_of_undecodable hp hd)

theorem exists_reads (s : VersionedStrategy) (packet : Packet) (q : TypeProperty) :
    ∃ result, s.Reads packet q.candidates result := by
  cases ht : q.resolve s.names with
  | error e => exact ⟨_, .unknown (resolve_eq_error_iff.1 ht).1⟩
  | ok t =>
      have hfirst := resolve_eq_ok_iff.1 ht
      by_cases hp : packet.payload = []
      · exact ⟨_, .bodiless hfirst hp⟩
      · cases hd : s.codec.decode t packet.payload with
        | ok b => exact ⟨_, .decoded hfirst hp hd⟩
        | error reason => exact ⟨_, .undecodable hfirst hp hd⟩

theorem reads_iff : s.Reads packet (ofProperties packet.properties).candidates result ↔
    s.deserialize packet = result := by
  refine ⟨Reads.deserialize, ?_⟩
  rintro rfl
  obtain ⟨result, h⟩ := exists_reads s packet (ofProperties packet.properties)
  rwa [h.deserialize]

theorem Reads.unknown_iff (h : s.Reads packet wire result) :
    result = .error (.unknownType ⟨wire⟩) ↔ ∀ n ∈ wire, ¬s.names.Knows n := by
  have hdecided {t : MessageType} (ht : s.names.FirstKnown wire t) : ¬∀ n ∈ wire, ¬s.names.Knows n := by
    obtain ⟨before, name, after, rfl, -, hname⟩ := ht
    exact fun hunknown => hunknown name (List.mem_append_right before List.mem_cons_self) ⟨t, hname⟩
  cases h with
  | unknown hunknown => exact iff_of_true rfl hunknown
  | bodiless ht _ => exact iff_of_false (by simp) (hdecided ht)
  | decoded ht _ _ => exact iff_of_false (by simp) (hdecided ht)
  | undecodable ht _ _ => exact iff_of_false (by simp) (hdecided ht)

/-- All received properties carry one list of names. A packet with them fails with just these names if and only if none
of them is known. Else it is read as the type of the first known one, with the properties that it came with. -/
theorem reads_carried_names (s : VersionedStrategy) (packet : Packet) :
    ∃ names, (∀ names', packet.properties.CarryNames names' ↔ names' = names) ∧
      (s.deserialize packet = .error (.unknownType ⟨names⟩) ↔ ∀ n ∈ names, ¬s.names.Knows n) ∧
      ∀ result, s.deserialize packet = result ↔ s.Reads packet names result :=
  ⟨(ofProperties packet.properties).candidates, fun _ => Properties.carryNames_iff, (reads_iff.2 rfl).unknown_iff,
    fun _ => reads_iff.symm⟩

end VersionedStrategy

end BrokerClient
