import BrokerClient.Proofs.Message.TypeProperty

/-!
# Names in received properties

Which names received properties carry, whatever their texts are: the name of the type, and what the semicolons of the
header divide, without the blanks around it (`Properties.CarryNames`). All properties carry one list of names, and these
are the names that a receiver tries (`carryNames_iff`).
-/
namespace BrokerClient

/-! ## Blanks around a text -/

namespace Text

/-- What is left of a text without the blanks around it. -/
structure Trims (cs core : List Char) : Prop where
  around : ∃ front behind, cs = front ++ core ++ behind ∧ (∀ c ∈ front, isBlank c = true) ∧
    ∀ c ∈ behind, isBlank c = true
  front : ∀ c ∈ core.head?, isBlank c = false
  behind : ∀ c ∈ core.getLast?, isBlank c = false

theorem isBlank_of_head?_dropWhile {cs : List Char} : ∀ c ∈ (cs.dropWhile isBlank).head?, isBlank c = false := by
  intro c hc
  have := List.head?_dropWhile_not isBlank cs
  rwa [Option.mem_def.1 hc] at this

theorem trims_trimChars (cs : List Char) : Trims cs (trimChars cs) := by
  -- `rest` is without the blanks in front, and what is left of it backwards is without those behind.
  obtain ⟨rest, hrest⟩ : ∃ rest, cs.dropWhile isBlank = rest := ⟨_, rfl⟩
  have hcs : cs = cs.takeWhile isBlank ++ rest := hrest ▸ List.takeWhile_append_dropWhile.symm
  have hsplit : rest = (rest.reverse.dropWhile isBlank).reverse ++ (rest.reverse.takeWhile isBlank).reverse := by
    rw [← List.reverse_append, List.takeWhile_append_dropWhile, List.reverse_reverse]
  rw [trimChars, hrest]
  refine ⟨⟨cs.takeWhile isBlank, (rest.reverse.takeWhile isBlank).reverse, ?_, fun c hc => List.mem_takeWhile_imp hc,
    fun c hc => List.mem_takeWhile_imp (List.mem_reverse.1 hc)⟩, ?_, ?_⟩
  · rw [List.append_assoc, ← hsplit]
    exact hcs
  · intro c hc
    have hhead : c ∈ (cs.dropWhile isBlank).head? := by
      rw [hrest, hsplit, List.head?_append, Option.mem_def.1 hc]
      rfl
    exact isBlank_of_head?_dropWhile c hhead
  · intro c hc
    rw [List.getLast?_reverse] at hc
    exact isBlank_of_head?_dropWhile c hc

theorem trims_iff {cs core : List Char} : Trims cs core ↔ core = trimChars cs := by
  constructor
  · rintro ⟨⟨front, behind, rfl, hf, hb⟩, hfront, hbehind⟩
    have hblank : ∀ c ∈ behind.reverse, isBlank c = true := fun c hc => hb c (List.mem_reverse.1 hc)
    have hcore : core.reverse.dropWhile isBlank = core.reverse :=
      dropWhile_isBlank (by rwa [List.head?_reverse])
    rw [trimChars, List.append_assoc, List.dropWhile_append_of_pos hf]
    cases core with
    | nil => rw [List.nil_append, List.dropWhile_eq_nil_iff.2 hb]; rfl
    | cons c core =>
        rw [List.cons_append, List.dropWhile_cons_of_neg (by simp [hfront c rfl]), ← List.cons_append,
          List.reverse_append, List.dropWhile_append_of_pos hblank, hcore, List.reverse_reverse]
  · rintro rfl
    exact trims_trimChars cs

theorem trimChars_eq_nil_iff {cs : List Char} : trimChars cs = [] ↔ ∀ c ∈ cs, isBlank c = true := by
  refine ⟨fun h => ?_, trimChars_of_blank⟩
  obtain ⟨⟨front, behind, hcs, hf, hb⟩, -, -⟩ := trims_trimChars cs
  rw [h, List.append_nil] at hcs
  rw [hcs]
  exact List.forall_mem_append.2 ⟨hf, hb⟩

/-! ## Segments -/

/-- The pieces of a text between the separators in it. -/
structure Divides (sep : Char) (cs : List Char) (segments : List (List Char)) : Prop where
  nonempty : segments ≠ []
  unbroken : ∀ segment ∈ segments, sep ∉ segment
  joined : [sep].intercalate segments = cs

theorem divides_splitOn (sep : Char) (cs : List Char) : Divides sep cs (cs.splitOn sep) := by
  refine ⟨List.splitOn_ne_nil sep cs, ?_, List.intercalate_splitOn sep⟩
  induction hn : cs.length using Nat.strong_induction_on generalizing cs with
  | _ n ih =>
      intro segment hs
      have hne {front : List Char} (h : sep ∉ front) : ∀ c ∈ front, (c == sep) = false :=
        fun c hc => beq_false_of_ne (fun heq => h (heq ▸ hc))
      rw [List.splitOn] at hs
      by_cases hin : sep ∈ cs
      · -- The first separator ends the first segment; the others are those of what comes behind it.
        obtain ⟨front, rest, rfl, hfront⟩ := List.eq_append_cons_of_mem hin
        rw [List.splitOnP_append_cons_of_forall_mem (hne hfront) sep (beq_self_eq_true sep)] at hs
        rcases List.mem_cons.1 hs with rfl | hs
        · exact hfront
        · exact ih rest.length (by rw [← hn, List.length_append, List.length_cons]; omega) rest rfl segment hs
      · rw [List.splitOnP_eq_singleton (hne hin), List.mem_singleton] at hs
        exact hs ▸ hin

theorem divides_iff {sep : Char} {cs : List Char} {segments : List (List Char)} :
    Divides sep cs segments ↔ segments = cs.splitOn sep := by
  constructor
  · rintro ⟨hne, hun, rfl⟩
    exact (List.splitOn_intercalate sep hun hne).symm
  · rintro rfl
    exact divides_splitOn sep cs

end Text

/-! ## Names -/

/-- The value is a text, or the octets of one. -/
def HeaderValue.Tells (v : HeaderValue) (text : String) : Prop :=
  v = .string text ∨ v = .bytes (Text.utf8 text)

theorem HeaderValue.tells_iff {v : HeaderValue} {text : String} : v.Tells text ↔ v.asText = some text := by
  unfold Tells
  cases v with
  | string s => simp [asText]
  | bytes bs =>
      simp only [reduceCtorEq, HeaderValue.bytes.injEq, false_or, asText]
      exact ⟨fun h => h ▸ Text.ofUtf8?_utf8 text, fun h => (Text.utf8_of_ofUtf8? h).symm⟩
  | void | bool | int | float | array | table => simp [asText]

namespace TypeProperty

/-- The names in the segments of a header, less the blank ones. -/
inductive NamesIn : List (List Char) → List String → Prop where
  | nil : NamesIn [] []
  | blank {segment : List Char} {segments : List (List Char)} {names : List String}
      (hb : ∀ c ∈ segment, Text.isBlank c = true) (h : NamesIn segments names) : NamesIn (segment :: segments) names
  | name {segment : List Char} {segments : List (List Char)} {name : String} {names : List String}
      (hn : Text.Trims segment name.toList) (hne : name ≠ "") (h : NamesIn segments names) :
      NamesIn (segment :: segments) (name :: names)

theorem namesIn_iff {segments : List (List Char)} {names : List String} : NamesIn segments names ↔
    names = (segments.map Text.trimChars).filterMap
      (fun cs => if cs.isEmpty then none else some (String.ofList cs)) := by
  constructor
  · intro h
    induction h with
    | nil => rfl
    | blank hb _ ih =>
        rw [List.map_cons, Text.trimChars_eq_nil_iff.2 hb, List.filterMap_cons_none rfl]
        exact ih
    | @name segment _ name _ hn hne _ ih =>
        have hkept : Text.trimChars segment ≠ [] := by
          rw [← Text.trims_iff.1 hn]
          simpa using hne
        simp only [List.map_cons, List.filterMap_cons, List.isEmpty_eq_false_iff.2 hkept, Bool.false_eq_true, if_false]
        rw [← Text.trims_iff.1 hn, String.ofList_toList, ih]
  · rintro rfl
    induction segments with
    | nil => exact .nil
    | cons segment segments ih =>
        rw [List.map_cons]
        by_cases hb : Text.trimChars segment = []
        · rw [hb, List.filterMap_cons_none rfl]
          exact .blank (Text.trimChars_eq_nil_iff.1 hb) ih
        · simp only [List.filterMap_cons, List.isEmpty_eq_false_iff.2 hb, Bool.false_eq_true, if_false]
          refine .name (Text.trims_iff.2 String.toList_ofList) ?_ ih
          simpa using hb

theorem splitNames_eq_nil_iff {text : String} :
    splitNames text = [] ↔ ∀ segment ∈ text.toList.splitOn ';', ∀ c ∈ segment, Text.isBlank c = true := by
  have hdropped {cs : List Char} : (if cs.isEmpty then none else some (String.ofList cs)) = none ↔ cs = [] := by
    cases cs <;> simp
  simp only [splitNames, List.filterMap_eq_nil_iff, List.forall_mem_map, hdropped, Text.trimChars_eq_nil_iff]

/-- What is found between semicolons, without the blanks around it, can be written among other names. -/
theorem plain_of_mem_splitNames {text name : String} (h : name ∈ splitNames text) : Plain name := by
  obtain ⟨cs, hcs, hname⟩ := List.mem_filterMap.1 h
  obtain ⟨segment, hs, rfl⟩ := List.mem_map.1 hcs
  split at hname
  · cases hname
  · rename_i hne
    cases hname
    have htrims := Text.trims_trimChars segment
    obtain ⟨front, behind, hsplit, -, -⟩ := htrims.around
    have hunbroken := (Text.divides_splitOn ';' text.toList).unbroken segment hs
    refine ⟨by simpa using hne, ?_, ?_, ?_⟩
    · rw [String.toList_ofList]
      intro hmem
      rw [hsplit] at hunbroken
      exact hunbroken (List.mem_append_left behind (List.mem_append_right front hmem))
    · rw [String.toList_ofList]
      exact htrims.front
    · rw [String.toList_ofList]
      exact htrims.behind

end TypeProperty

namespace Properties

open TypeProperty

/-- The names that the header carries: none unless its value is a text. -/
inductive HeaderNames (p : Properties) : List String → Prop where
  | text {v : HeaderValue} {text : String} {segments : List (List Char)} {names : List String}
      (hv : p.header? alternativesHeader = some v) (ht : v.Tells text) (hd : Text.Divides ';' text.toList segments)
      (hn : NamesIn segments names) : HeaderNames p names
  | none (h : ∀ v, p.header? alternativesHeader = some v → ∀ text, ¬ v.Tells text) : HeaderNames p []

/-- The name of the type, if it is there and not empty, and behind it the names that the header carries. -/
inductive CarryNames (p : Properties) : List String → Prop where
  | typed {first : String} {rest : List String} (ht : p.typeName = some first) (hne : first ≠ "")
      (h : p.HeaderNames rest) : CarryNames p (first :: rest)
  | untyped {names : List String} (ht : p.typeName = none ∨ p.typeName = some "") (h : p.HeaderNames names) :
      CarryNames p names

variable {p : Properties} {names : List String}

theorem headerNames_iff : p.HeaderNames names ↔ names = (ofProperties p).alternatives := by
  simp only [ofProperties]
  cases htext : (p.header? alternativesHeader).bind HeaderValue.asText with
  | none =>
      have hnone : ∀ v, p.header? alternativesHeader = some v → ∀ text, ¬ v.Tells text := by
        intro v hv text ht
        rw [hv, Option.bind_some, HeaderValue.tells_iff.1 ht] at htext
        cases htext
      constructor
      · rintro (⟨hv, ht, -, -⟩ | -)
        · exact absurd ht (hnone _ hv _)
        · rfl
      · rintro rfl
        exact .none hnone
  | some text =>
      obtain ⟨v, hv, ht⟩ := Option.bind_eq_some_iff.1 htext
      constructor
      · rintro (⟨hv', ht', hd, hn⟩ | hnone)
        · obtain rfl := Option.some.inj (hv.symm.trans hv')
          obtain rfl := Option.some.inj (ht.symm.trans (HeaderValue.tells_iff.1 ht'))
          rw [Text.divides_iff.1 hd, namesIn_iff] at hn
          exact hn
        · exact absurd (HeaderValue.tells_iff.2 ht) (hnone v hv text)
      · rintro rfl
        exact .text hv (HeaderValue.tells_iff.2 ht) (Text.divides_splitOn ';' _) (namesIn_iff.2 rfl)

theorem carryNames_iff : p.CarryNames names ↔ names = (ofProperties p).candidates := by
  have hcandidates : (ofProperties p).candidates =
      (if (p.typeName.getD "").isEmpty then [] else [p.typeName.getD ""]) ++ (ofProperties p).alternatives := rfl
  rw [hcandidates]
  constructor
  · rintro (⟨ht, hne, h⟩ | ⟨ht | ht, h⟩)
    · rw [headerNames_iff.1 h, ht, Option.getD_some, if_neg (by simpa using hne)]
      rfl
    · rw [headerNames_iff.1 h, ht]
      rfl
    · rw [headerNames_iff.1 h, ht]
      rfl
  · rintro rfl
    cases ht : p.typeName with
    | none => exact .untyped (.inl ht) (headerNames_iff.2 rfl)
    | some first =>
        by_cases hne : first = ""
        · subst hne
          exact .untyped (.inr ht) (headerNames_iff.2 rfl)
        · rw [Option.getD_some, if_neg (by simpa using hne)]
          exact .typed ht hne (headerNames_iff.2 rfl)

end Properties

end BrokerClient
