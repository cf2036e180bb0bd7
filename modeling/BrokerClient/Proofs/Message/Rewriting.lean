import BrokerClient.Proofs.Message.Candidates

/-!
# Names written and found again

Just which names are found again after they are written into properties, and what else writing changes: nothing but the
name of the type and the one header (`rewriting`). Names that were found in properties can be written and found again.
-/
namespace BrokerClient

namespace Properties

/-- The text of the header, if it has one, holds nothing but blanks between its semicolons. -/
def CarriesNoNames (p : Properties) : Prop :=
  ∀ v text segments, p.header? TypeProperty.alternativesHeader = some v → v.Tells text →
    Text.Divides ';' text.toList segments → ∀ segment ∈ segments, ∀ c ∈ segment, Text.isBlank c = true

theorem carriesNoNames_iff {p : Properties} :
    p.CarriesNoNames ↔ (TypeProperty.ofProperties p).alternatives = [] := by
  simp only [CarriesNoNames, Text.divides_iff, HeaderValue.tells_iff]
  constructor
  · intro h
    simp only [TypeProperty.ofProperties]
    split
    · rename_i text htext
      obtain ⟨v, hv, ht⟩ := Option.bind_eq_some_iff.1 htext
      exact TypeProperty.splitNames_eq_nil_iff.2 (h v text _ hv ht rfl)
    · rfl
  · rintro h v text segments hv ht rfl
    simp only [TypeProperty.ofProperties, hv, Option.bind_some, ht] at h
    exact TypeProperty.splitNames_eq_nil_iff.1 h

end Properties

namespace TypeProperty

variable {q : TypeProperty} {p : Properties}

/-! ## What is found again -/

theorem splitNames_joinNames_eq_iff {ns : List String} : splitNames (joinNames ns) = ns ↔ ∀ n ∈ ns, Plain n := by
  refine ⟨fun h n hn => ?_, splitNames_joinNames⟩
  rw [← h] at hn
  exact plain_of_mem_splitNames hn

theorem ofProperties_appendTo_eq_self_iff : ofProperties (q.appendTo p) = q ↔
    (q.alternatives ≠ [] ∧ ∀ n ∈ q.alternatives, Plain n) ∨ (q.alternatives = [] ∧ p.CarriesNoNames) := by
  obtain ⟨primary, alternatives⟩ := q
  rw [ofProperties_appendTo_eq, Properties.carriesNoNames_iff]
  by_cases hne : alternatives = []
  · simp [hne]
  · simp [hne, splitNames_joinNames_eq_iff]

theorem plain_of_mem_alternatives {n : String} (h : n ∈ (ofProperties p).alternatives) : Plain n := by
  simp only [ofProperties] at h
  split at h
  · exact plain_of_mem_splitNames h
  · cases h

theorem ofProperties_appendTo_ofProperties (p : Properties) :
    ofProperties ((ofProperties p).appendTo p) = ofProperties p := by
  rw [ofProperties_appendTo_eq_self_iff, Properties.carriesNoNames_iff]
  by_cases hne : (ofProperties p).alternatives = []
  · exact .inr ⟨hne, hne⟩
  · exact .inl ⟨hne, fun _ => plain_of_mem_alternatives⟩

/-! ## What is written -/

theorem appendTo_eq (q : TypeProperty) (p : Properties) :
    q.appendTo p = { p with typeName := some q.primary, headers := (q.appendTo p).headers } := by
  unfold appendTo
  split <;> rfl

theorem header?_appendTo (q : TypeProperty) (p : Properties) (key : String) : (q.appendTo p).header? key =
    if q.alternatives ≠ [] ∧ key = alternativesHeader then some (.string (joinNames q.alternatives))
    else p.header? key := by
  by_cases hne : q.alternatives = []
  · simp [appendTo, hne, Properties.header?]
  · have hempty : q.alternatives.isEmpty = false := by simpa using hne
    simp only [appendTo, hempty, Bool.false_eq_true, if_false, Properties.header?_withHeader, ne_eq, hne,
      not_false_eq_true, true_and]
    rfl

/-- Names are found again as they were written if and only if the alternatives are such that the header can carry them
or, where there are none, the header that was there before carries no names. Names that were found in properties are
found in them again after they are written there. Nothing is written but the name of the type and that header. -/
theorem rewriting (q : TypeProperty) (p : Properties) :
    (ofProperties (q.appendTo p) = q ↔
      (q.alternatives ≠ [] ∧ ∀ n ∈ q.alternatives, Plain n) ∨ (q.alternatives = [] ∧ p.CarriesNoNames)) ∧
    ofProperties ((ofProperties p).appendTo p) = ofProperties p ∧
    q.appendTo p = { p with typeName := some q.primary, headers := (q.appendTo p).headers } ∧
    ∀ key ≠ alternativesHeader, (q.appendTo p).header? key = p.header? key := by
  refine ⟨ofProperties_appendTo_eq_self_iff, ofProperties_appendTo_ofProperties p, appendTo_eq q p, fun key hkey => ?_⟩
  rw [header?_appendTo, if_neg fun h => hkey h.2]

end TypeProperty

end BrokerClient
