import BrokerClient.Proofs.Supervisor.Verdict

/-!
# Verdicts under overrides

The verdict on an interruption is that of the last override for its reply code, or else the one that the code has in
the standard policy. No override changes the verdict on any other failure, and the overrides of different codes may come
in any order (`classify_withReplyCodes`).
-/
namespace BrokerClient

theorem isPipeliningForbidden_iff {what : String} : isPipeliningForbidden what = true ↔
    ∃ before after, what = before ++ "Pipelining of requests forbidden" ++ after := by
  rw [isPipeliningForbidden, occursIn_iff]
  constructor
  · rintro ⟨before, after, h⟩
    refine ⟨.ofList before, .ofList after, ?_⟩
    rw [← String.toList_inj, ← h]
    simp only [String.toList_append, String.toList_ofList, pipeliningForbidden]
  · rintro ⟨before, after, rfl⟩
    exact ⟨before.toList, after.toList, by simp only [String.toList_append, pipeliningForbidden]⟩

namespace Classifier

/-- The reply codes that the default classifier tells apart from all others. -/
def standard : List (UInt16 × Verdict) :=
  [(320, .suppress), (403, .throwAndClose), (404, .throwAndClose), (405, .throwAndClose), (406, .throwAndClose),
    (541, .suppressAndClose)]

/-- The verdicts that overrides give to a reply code, the first one first. -/
def verdictsFor (code : UInt16) (overrides : List (UInt16 × Verdict)) : List Verdict :=
  (overrides.filter (fun o => o.1 = code)).map Prod.snd

variable {k : Classifier} {os os' : List (UInt16 × Verdict)} {code : UInt16}

theorem byReplyCode_default (code : UInt16) : default.byReplyCode code = (standard.lookup code).getD .throw := by
  by_cases h : code ∈ standard.map Prod.fst
  · simp only [standard, List.map_cons, List.map_nil, List.mem_cons, List.not_mem_nil, or_false] at h
    rcases h with rfl | rfl | rfl | rfl | rfl | rfl <;> rfl
  · have hlookup : standard.lookup code = none := by
      rw [List.lookup_eq_none_iff]
      intro o ho
      simpa using fun heq : code = o.1 => h (heq ▸ List.mem_map_of_mem ho)
    simp only [standard, List.map_cons, List.map_nil, List.mem_cons, List.not_mem_nil, or_false, not_or] at h
    obtain ⟨h320, h403, h404, h405, h406, h541⟩ := h
    rw [hlookup]
    simp [default, h320, h403, h404, h405, h406, h541]

theorem byReplyCode_withReplyCodes (k : Classifier) (os : List (UInt16 × Verdict)) (code : UInt16) :
    (k.withReplyCodes os).byReplyCode code = (verdictsFor code os).getLast?.getD (k.byReplyCode code) := by
  induction os generalizing k with
  | nil => rfl
  | cons o os ih =>
      have hstep : (k.withReplyCodes (o :: os)).byReplyCode code =
          ((k.withReplyCode o.1 o.2).withReplyCodes os).byReplyCode code := rfl
      rw [hstep, ih]
      by_cases ho : o.1 = code
      · have hcons : verdictsFor code (o :: os) = o.2 :: verdictsFor code os := by simp [verdictsFor, ho]
        rw [hcons, List.getLast?_cons, Option.getD_some]
        simp [withReplyCode, ho]
      · have hcons : verdictsFor code (o :: os) = verdictsFor code os := by simp [verdictsFor, ho]
        rw [hcons]
        simp [withReplyCode, Ne.symm ho]

theorem classify_of_not_interrupted {e : TransportError} (h : ∀ reason, e ≠ .interrupted (some reason))
    (k k' : Classifier) : k.classify e = k'.classify e := by
  cases e with
  | interrupted reason =>
      cases reason with
      | none => rfl
      | some reason => exact absurd rfl (h reason)
  | _ => rfl

/-- Where each code has the same overrides in the same order, they give the same classifier. -/
theorem withReplyCodes_congr (h : ∀ code, verdictsFor code os = verdictsFor code os') (k : Classifier) :
    k.withReplyCodes os = k.withReplyCodes os' := by
  have hcodes : (k.withReplyCodes os).byReplyCode = (k.withReplyCodes os').byReplyCode := by
    funext code
    rw [byReplyCode_withReplyCodes, byReplyCode_withReplyCodes, h]
  exact congrArg Classifier.mk hcodes

/-- Under any overrides the verdict on an interruption with a reason is the last one for its reply code, or that of the
standard policy, or to throw, whoever began the shutdown and whatever the text. The verdict on any other failure is the
same as without them; a failure for want of support passes, at the price of the channel, just if the words of a busy
transport occur in it. Overrides give the same classifier in any order that keeps those of each code in theirs. -/
theorem classify_withReplyCodes (os : List (UInt16 × Verdict)) :
    (∀ reason : ShutdownReason, (default.withReplyCodes os).classify (.interrupted (some reason)) =
      ((verdictsFor reason.replyCode os).getLast?.or (standard.lookup reason.replyCode)).getD .throw) ∧
    (∀ e, (∀ reason, e ≠ .interrupted (some reason)) →
      (default.withReplyCodes os).classify e = default.classify e) ∧
    (∀ what, ((default.withReplyCodes os).classify (.notSupported what) = .suppressAndClose ↔
        ∃ before after, what = before ++ "Pipelining of requests forbidden" ++ after) ∧
      ((default.withReplyCodes os).classify (.notSupported what) = .throw ↔
        ¬∃ before after, what = before ++ "Pipelining of requests forbidden" ++ after)) ∧
    ∀ os', (∀ code, verdictsFor code os = verdictsFor code os') →
      default.withReplyCodes os = default.withReplyCodes os' := by
  refine ⟨fun reason => ?_, fun e he => classify_of_not_interrupted he _ _, fun what => ?_, fun os' h => ?_⟩
  · rw [classify, byReplyCode_withReplyCodes, byReplyCode_default, Option.getD_or]
  · rw [← isPipeliningForbidden_iff]
    cases h : isPipeliningForbidden what <;> simp [classify, h]
  · exact withReplyCodes_congr h default

/-- Two codes are overridden, one of them twice; the words occur in the middle of a text. -/
theorem classify_withReplyCodes_mixed :
    (default.withReplyCodes [(320, .throw), (530, .suppress), (320, .suppressAndClose)]).classify
      (.interrupted (some ⟨.library, 320, "shutdown"⟩)) = .suppressAndClose ∧
    (default.withReplyCodes [(320, .throw), (530, .suppress), (320, .suppressAndClose)]).classify
      (.interrupted none) = .throw ∧
    (default.withReplyCodes [(320, .throw), (530, .suppress), (320, .suppressAndClose)]).classify
      (.notSupported "busy: Pipelining of requests forbidden, wait") = .suppressAndClose ∧
    default.withReplyCodes [(320, .throw), (530, .suppress), (320, .suppressAndClose)] =
      default.withReplyCodes [(320, .throw), (320, .suppressAndClose), (530, .suppress)] := by
  obtain ⟨hinterrupted, hother, hbusy, horder⟩ :=
    classify_withReplyCodes [(320, .throw), (530, .suppress), (320, .suppressAndClose)]
  refine ⟨hinterrupted _, hother _ nofun, (hbusy _).1.2 ⟨"busy: ", ", wait", rfl⟩, horder _ fun code => ?_⟩
  by_cases hforced : code = 320
  · subst hforced
    rfl
  · simp [verdictsFor, List.filter_cons, Ne.symm hforced]

end Classifier

end BrokerClient
