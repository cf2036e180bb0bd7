import BrokerClient.Message.Codec
import BrokerClient.Proofs.Body.Extent
import BrokerClient.Proofs.Json.Extent
import BrokerClient.Proofs.Text.Utf8

/-!
# Damaged octets

What codecs make of the octets of an object of which some are missing at the end (`CutOff`), or behind which there are
others. Of octets that are cut off neither codec makes a body. Behind an object the JSON codec suffers blanks only
(`json_of_followed`), the MessagePack codec anything at all (`msgPack_of_followed`).
-/
namespace BrokerClient

/-! ## Texts of objects -/

namespace Json

theorem exists_membersTokens_eq (ms : List (Units × Json)) : ∃ ts, membersTokens ms = ts ++ [.closeObject] := by
  induction ms with
  | nil => exact ⟨[], rfl⟩
  | cons m ms ih =>
      obtain ⟨k, x⟩ := m
      obtain ⟨ts, hts⟩ := ih
      exact ⟨.comma :: .string k :: .colon :: (x.tokens ++ ts), by simp [membersTokens, hts]⟩

/-- The text of an object stands in braces. -/
theorem exists_chars_object_eq (ms : List (Units × Json)) :
    ∃ cs, (Json.object ms).chars = '\x7b' :: cs ++ ['\x7d'] := by
  cases ms with
  | nil => exact ⟨[], rfl⟩
  | cons m ms =>
      obtain ⟨k, x⟩ := m
      obtain ⟨ts, hts⟩ := exists_membersTokens_eq ms
      refine ⟨rowChars (.string k :: .colon :: (x.tokens ++ ts)), ?_⟩
      simp [chars, tokens, hts, rowChars, Token.chars]

end Json

namespace Body

variable {ms : List (String × Body)} {s s' : String} {b : Body}

theorem exists_text_object_eq (ms : List (String × Body)) :
    ∃ cs, (object ms).text.toList = '\x7b' :: cs ++ ['\x7d'] := by
  simpa only [text, toJson, Json.text, String.toList_ofList] using Json.exists_chars_object_eq (membersToJson ms)

theorem ofString?_of_ofText? (h : ofText? s = some b) : ∃ j, Json.ofString? s = some j := by
  obtain ⟨j, hj, -⟩ := Option.bind_eq_some_iff.1 h
  exact ⟨j, hj⟩

/-- Behind the text of an object there may be blanks. -/
theorem isBlank_of_ofText?_append (h : ofText? ((object ms).text ++ s) = some b) :
    ∀ c ∈ s.toList, Json.isBlank c = true := by
  obtain ⟨j, hj⟩ := ofString?_of_ofText? h
  obtain ⟨cs, hcs⟩ := exists_text_object_eq ms
  have hobject := ofString?_text (object ms)
  rw [Json.ofString?, hcs] at hobject
  rw [Json.ofString?, String.toList_append, hcs] at hj
  exact Json.isBlank_of_ofChars?_append hobject hj

/-- Of an object's text without its end nothing is read, for what is missing is more than blanks. -/
theorem ofText?_of_cutOff (h : (object ms).text = s ++ s') (hs : s ≠ "") (hs' : s' ≠ "") : ofText? s = none := by
  obtain ⟨cs, hcs⟩ := exists_text_object_eq ms
  obtain ⟨c, cs₁, hc⟩ := List.exists_cons_of_ne_nil (mt String.toList_eq_nil_iff.1 hs)
  obtain ⟨cs₂, d, hd⟩ := List.eq_nil_or_concat s'.toList |>.resolve_left (mt String.toList_eq_nil_iff.1 hs')
  have hwhole := ofString?_text (object ms)
  rw [h, String.toList_append, hc, hd, List.concat_eq_append, ← List.append_assoc] at hcs
  obtain ⟨hinit, hlast⟩ := List.append_inj' hcs rfl
  obtain rfl : c = '\x7b' := (List.cons.inj hinit).1
  obtain rfl : d = '\x7d' := List.singleton_inj.1 hlast
  rw [Option.eq_none_iff_forall_ne_some]
  intro b hb
  obtain ⟨j, hj⟩ := ofString?_of_ofText? hb
  rw [Json.ofString?, h, String.toList_append, hc] at hwhole
  rw [Json.ofString?, hc] at hj
  have hblank := Json.isBlank_of_ofChars?_append hj hwhole '\x7d' (by simp [hd])
  cases hblank

end Body

/-! ## Codecs -/

/-- Some of the octets, but not all of them. -/
structure CutOff (payload q : Text.Octets) : Prop where
  isPrefix : q <+: payload
  nonempty : q ≠ []
  proper : q ≠ payload

namespace BodyCodec

variable {t : MessageType} {ms : List (String × Body)} {payload q more : Text.Octets} {b : Body}

theorem exists_error_of_none {α : Type} {reason : String} {o : Option α} (h : o = none) :
    ∃ reason', orReason reason o = .error reason' := by
  rw [h]
  exact ⟨reason, rfl⟩

theorem json_of_cutOff (he : json.encode t (.object ms) = .ok payload) (hq : CutOff payload q)
    (t' : MessageType) : ∃ reason, json.decode t' q = .error reason := by
  cases he
  obtain ⟨⟨more, hmore⟩, hne, hproper⟩ := hq
  apply exists_error_of_none
  cases hs : Text.ofUtf8? q with
  | none => rfl
  | some s =>
      obtain rfl := Text.utf8_of_ofUtf8? hs
      obtain ⟨s', hs', rfl⟩ := Text.exists_append_of_utf8 hmore
      refine Body.ofText?_of_cutOff hs' ?_ ?_
      · rintro rfl
        exact hne rfl
      · rintro rfl
        rw [String.append_empty] at hs'
        exact hproper (congrArg Text.utf8 hs'.symm)

theorem msgPack_of_cutOff (ho : b.Ordered) (hs : b.Throughout Body.IsShort) (he : msgPack.encode t b = .ok payload)
    (hq : CutOff payload q) (t' : MessageType) : ∃ reason, msgPack.decode t' q = .error reason := by
  cases he
  exact exists_error_of_none (Body.MsgPack.ofOctets?_of_prefix ho hs hq.isPrefix hq.proper)

/-- The octets of blanks in a JSON text. -/
def isBlankOctet (o : UInt8) : Bool :=
  o == 0x20 || o == 0x09 || o == 0x0A || o == 0x0D

theorem isBlankOctet_of_mem_utf8 {s : String} (h : ∀ c ∈ s.toList, Json.isBlank c = true) :
    ∀ o ∈ Text.utf8 s, isBlankOctet o = true := by
  intro o ho
  rw [Text.utf8_eq] at ho
  obtain ⟨c, hc, ho⟩ := List.mem_flatMap.1 ho
  have hblank := h c hc
  simp only [Json.isBlank, Bool.or_eq_true, beq_iff_eq] at hblank
  rcases hblank with ((rfl | rfl) | rfl) | rfl <;>
  · obtain rfl := List.mem_singleton.1 ho
    rfl

theorem json_of_followed (he : json.encode t (.object ms) = .ok payload) (hmore : ∃ o ∈ more, isBlankOctet o = false)
    (t' : MessageType) : ∃ reason, json.decode t' (payload ++ more) = .error reason := by
  cases he
  apply exists_error_of_none
  rw [Option.eq_none_iff_forall_ne_some]
  intro b hb
  obtain ⟨s, hs, hread⟩ := Option.bind_eq_some_iff.1 hb
  obtain ⟨s', rfl, rfl⟩ := Text.exists_append_of_utf8 (Text.utf8_of_ofUtf8? hs).symm
  obtain ⟨o, ho, hnot⟩ := hmore
  rw [isBlankOctet_of_mem_utf8 (Body.isBlank_of_ofText?_append hread) o ho] at hnot
  cases hnot

theorem msgPack_of_followed (hd : msgPack.decode t payload = .ok b) (more : Text.Octets) :
    msgPack.decode t (payload ++ more) = .ok b := by
  simp only [msgPack] at hd ⊢
  cases hread : Body.MsgPack.ofOctets? payload with
  | none =>
      rw [hread] at hd
      cases hd
  | some b' => rwa [Body.MsgPack.ofOctets?_append hread, ← hread]

end BodyCodec

end BrokerClient
