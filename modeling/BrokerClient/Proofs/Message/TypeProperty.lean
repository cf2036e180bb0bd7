import BrokerClient.Message.TypeProperty
import BrokerClient.Proofs.Message.Supersession
import Mathlib.Data.List.Basic
import Mathlib.Data.List.TakeWhile

/-!
# Names of types, written and read

What is written into the header with the names of superseded types is read back as it was
(`splitNames_joinNames`). So a receiver tries the names of the chain, and after them only those of a header
that was left standing (`ofProperties_appendTo`).
-/
namespace BrokerClient

/-! ## Blanks -/

namespace Text

theorem dropWhile_isBlank {cs : List Char} (h : ∀ c ∈ cs.head?, isBlank c = false) : cs.dropWhile isBlank = cs := by
  cases cs with
  | nil => rfl
  | cons c cs => exact List.dropWhile_cons_of_neg (by simp [h c rfl])

theorem trimChars_eq_self {cs : List Char} (hfront : ∀ c ∈ cs.head?, isBlank c = false)
    (hbehind : ∀ c ∈ cs.getLast?, isBlank c = false) : trimChars cs = cs := by
  rw [trimChars, dropWhile_isBlank hfront, dropWhile_isBlank (by rwa [List.head?_reverse]), List.reverse_reverse]

theorem trimChars_of_blank {cs : List Char} (h : ∀ c ∈ cs, isBlank c = true) : trimChars cs = [] := by
  rw [trimChars, List.dropWhile_eq_nil_iff.2 h]
  rfl

end Text

theorem Properties.header?_withHeader (p : Properties) (key key' : String) (v : HeaderValue) :
    (p.withHeader key v).header? key' = if key' = key then some v else p.header? key' :=
  Entries.get?_insert key key' v p.headers.entries

/-! ## The names of a chain -/

/-- The types of a chain are written by these names. -/
def TypeNames.NamesChain (names : TypeNames) (s : Supersession) (t : MessageType) (wire : List String) : Prop :=
  ∃ ts, s.Lineage t ts ∧ ts.map names.nameOf = wire.map .ok

theorem TypeNames.NamesChain.ne_nil {names : TypeNames} {s : Supersession} {t : MessageType} {wire : List String}
    (h : names.NamesChain s t wire) : wire ≠ [] := by
  obtain ⟨ts, hc, hn⟩ := h
  rintro rfl
  exact hc.ne_nil (List.map_eq_nil_iff.1 hn)

/-- The name stands for a type. -/
def TypeNames.Knows (names : TypeNames) (name : String) : Prop :=
  ∃ t, names.typeOf name = .ok t

namespace TypeProperty

variable {names : TypeNames} {s : Supersession} {t : MessageType} {p : Properties} {q : TypeProperty}

theorem mapM_eq_ok_iff {β γ ε : Type} {f : β → Except ε γ} {xs : List β} {ys : List γ} :
    xs.mapM f = .ok ys ↔ xs.map f = ys.map .ok := by
  induction xs generalizing ys with
  | nil => cases ys <;> simp [pure, Except.pure]
  | cons x xs ih =>
      rw [List.mapM_cons]
      cases hx : f x with
      | error e => cases ys <;> simp [bind, Except.bind, hx]
      | ok y =>
          cases hxs : xs.mapM f with
          | error e => cases ys <;> simp [bind, Except.bind, ← ih, hxs]
          | ok zs => cases ys <;> simp [bind, Except.bind, pure, Except.pure, ← ih, hx, hxs]

theorem ofType_eq_ok_iff :
    ofType t names s = .ok q ↔ names.NamesChain s t (q.primary :: q.alternatives) := by
  unfold ofType TypeNames.NamesChain
  simp only [← mapM_eq_ok_iff, ← Supersession.chain_eq_ok_iff]
  cases hc : s.chain t with
  | error e => simp [bind, Except.bind]
  | ok ts =>
      cases hn : ts.mapM names.nameOf with
      | error e => simp [bind, Except.bind, hn]
      | ok ns =>
          cases ns with
          | nil => exact absurd (List.map_eq_nil_iff.1 (mapM_eq_ok_iff.1 hn)) (Supersession.chain_eq_ok_iff.1 hc).ne_nil
          | cons n ns =>
              obtain ⟨primary, alternatives⟩ := q
              simp [bind, Except.bind, pure, Except.pure, hn]

/-! ## Splitting and joining -/

/-- A name that the header can carry among others: not empty, without a semicolon, without a blank at either
end. -/
structure Plain (name : String) : Prop where
  nonempty : name ≠ ""
  unbroken : ';' ∉ name.toList
  front : ∀ c ∈ name.toList.head?, Text.isBlank c = false
  behind : ∀ c ∈ name.toList.getLast?, Text.isBlank c = false

instance (name : String) : Decidable (Plain name) :=
  decidable_of_iff (name ≠ "" ∧ ';' ∉ name.toList ∧ name.toList.head?.all (!Text.isBlank ·) = true ∧
      name.toList.getLast?.all (!Text.isBlank ·) = true)
    ⟨fun ⟨h, h', hf, hb⟩ => ⟨h, h', by simpa [Option.all_eq_true] using hf, by simpa [Option.all_eq_true] using hb⟩,
      fun h => ⟨h.nonempty, h.unbroken, by simpa [Option.all_eq_true] using h.front,
        by simpa [Option.all_eq_true] using h.behind⟩⟩

theorem splitOn_joinNames {ns : List String} (hne : ns ≠ []) (h : ∀ n ∈ ns, ';' ∉ n.toList) :
    (joinNames ns).toList.splitOn ';' = ns.map String.toList := by
  rw [joinNames, String.toList_intercalate]
  refine List.splitOn_intercalate ';' ?_ (by simpa using hne)
  intro cs hcs
  obtain ⟨n, hn, rfl⟩ := List.mem_map.1 hcs
  exact h n hn

theorem splitNames_joinNames {ns : List String} (h : ∀ n ∈ ns, Plain n) : splitNames (joinNames ns) = ns := by
  by_cases hne : ns = []
  · rw [hne]
    rfl
  · have htrim : (ns.map String.toList).map Text.trimChars = ns.map String.toList := by
      rw [List.map_map]
      apply List.map_congr_left
      intro n hn
      exact Text.trimChars_eq_self (h n hn).front (h n hn).behind
    rw [splitNames, splitOn_joinNames hne fun n hn => (h n hn).unbroken, htrim, List.filterMap_map]
    -- No name is empty, so none is dropped.
    refine (List.filterMap_congr fun n hn => ?_).trans List.filterMap_some
    simpa using (h n hn).nonempty

/-- The first name is found whatever the others are. -/
theorem splitNames_joinNames_cons {n : String} (h : Plain n) (ns : List String) :
    ∃ more, splitNames (joinNames (n :: ns)) = n :: more := by
  cases ns with
  | nil => exact ⟨[], splitNames_joinNames (by simpa using h)⟩
  | cons n' ns =>
      obtain ⟨cs, hcs⟩ : ∃ cs, (joinNames (n :: n' :: ns)).toList = n.toList ++ ';' :: cs :=
        ⟨_, by rw [joinNames, String.toList_intercalate]; simp [List.intercalate_cons_cons]; rfl⟩
      have hunbroken : ∀ c ∈ n.toList, (c == ';') = false := by
        intro c hc
        exact beq_false_of_ne (fun heq => h.unbroken (heq ▸ hc))
      rw [splitNames, hcs, List.splitOn, List.splitOnP_append_cons_of_forall_mem hunbroken ';' rfl, List.map_cons,
        Text.trimChars_eq_self h.front h.behind]
      exact ⟨_, List.filterMap_cons_some (by simpa using h.nonempty)⟩

/-! ## Properties -/

/-- If there are no alternatives, the names in a header that was there before are found in their place. -/
theorem ofProperties_appendTo_eq (q : TypeProperty) (p : Properties) : ofProperties (q.appendTo p) = ⟨q.primary,
    if q.alternatives = [] then (ofProperties p).alternatives else splitNames (joinNames q.alternatives)⟩ := by
  by_cases hne : q.alternatives = []
  · simp [appendTo, ofProperties, hne, Properties.header?]
  · have hempty : q.alternatives.isEmpty = false := by simpa using hne
    simp only [appendTo, hempty, Bool.false_eq_true, if_false, ofProperties, Properties.header?_withHeader,
      if_true, Option.bind_some, HeaderValue.asText, if_neg hne]
    rfl

/-- The names that are found are the primary one and the alternatives, or those of a header that was there before. -/
theorem ofProperties_appendTo (h : ∀ n ∈ q.alternatives, Plain n) (p : Properties) :
    ofProperties (q.appendTo p) =
      ⟨q.primary, if q.alternatives = [] then (ofProperties p).alternatives else q.alternatives⟩ := by
  rw [ofProperties_appendTo_eq, splitNames_joinNames h]

theorem ofProperties_appendTo_cons (first : String) {second : String} (h : Plain second) (rest : List String)
    (p : Properties) :
    ∃ more, ofProperties ((TypeProperty.mk first (second :: rest)).appendTo p) = ⟨first, second :: more⟩ := by
  obtain ⟨more, hmore⟩ := splitNames_joinNames_cons h rest
  refine ⟨more, ?_⟩
  rw [ofProperties_appendTo_eq, if_neg (List.cons_ne_nil second rest), hmore]

/-! ## Resolution -/

theorem typeOf?_eq_none {name : String} : typeOf? names name = none ↔ ¬names.Knows name := by
  unfold typeOf? TypeNames.Knows
  cases names.typeOf name <;> simp

/-- The first known name counts. -/
theorem resolve_of_knows {before after : List String} {name : String} (hc : q.candidates = before ++ name :: after)
    (hb : ∀ n ∈ before, ¬names.Knows n) (hn : names.typeOf name = .ok t) : q.resolve names = .ok t := by
  have hfind : q.candidates.findSome? (typeOf? names) = some t := by
    rw [List.findSome?_eq_some_iff]
    exact ⟨before, name, after, hc, by simp only [typeOf?, hn], fun n hm => typeOf?_eq_none.2 (hb n hm)⟩
  simp only [resolve, hfind]

theorem resolve_of_first {name : String} {after : List String} (hc : q.candidates = name :: after)
    (hn : names.typeOf name = .ok t) : q.resolve names = .ok t :=
  resolve_of_knows (List.nil_append (name :: after) ▸ hc) (by simp) hn

theorem resolve_of_second {name name' : String} {after : List String} (hc : q.candidates = name :: name' :: after)
    (hb : ¬names.Knows name) (hn : names.typeOf name' = .ok t) : q.resolve names = .ok t := by
  have hsplit : q.candidates = [name] ++ name' :: after := hc
  apply resolve_of_knows hsplit _ hn
  simpa using hb

theorem resolve_of_unknown (h : ∀ n ∈ q.candidates, ¬names.Knows n) : q.resolve names = .error ⟨q.candidates⟩ := by
  have hfind : q.candidates.findSome? (typeOf? names) = none := by
    rw [List.findSome?_eq_none_iff]
    exact fun n hn => typeOf?_eq_none.2 (h n hn)
  simp only [resolve, hfind]

theorem exists_of_resolve (h : q.resolve names = .ok t) : ∃ n ∈ q.candidates, names.typeOf n = .ok t := by
  unfold resolve at h
  split at h
  · rename_i found hfind
    cases h
    obtain ⟨n, hn, ht⟩ := List.exists_of_findSome?_eq_some hfind
    unfold typeOf? at ht
    split at ht
    · rename_i t' ht'
      cases ht
      exact ⟨n, hn, ht'⟩
    · cases ht
  · cases h

end TypeProperty

end BrokerClient
