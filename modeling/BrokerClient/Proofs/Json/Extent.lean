import BrokerClient.Proofs.Json.Tree
import Mathlib.Data.List.Basic

/-!
# Where a JSON text ends

The tokens of a text that is read begin with those of any text that is read in front of it, if the last of these has
an end of its own (`scanFrom_append`), and no token can follow a value (`run_append`). So only blanks can follow the
text of an object (`isBlank_of_ofChars?_append`).
-/
namespace BrokerClient.Json

variable {s s' : Scan} {t : Token} {ts ts' found : List Token} {c : Char} {cs : List Char}

/-! ## Scanning on -/

/-- A word or a number that has come to its end is one token more. -/
theorem scanEnd_cases (h : scanEnd s ts = some ts') :
    (s = .between ∧ ts' = ts) ∨ ∃ t, ts' = t :: ts ∧ t.isOpenEnded = true := by
  cases s with
  | between =>
      cases h
      exact .inl ⟨rfl, rfl⟩
  | word cs =>
      obtain ⟨t, ht, rfl⟩ := Option.map_eq_some_iff.1 h
      refine .inr ⟨t, rfl, ?_⟩
      unfold Token.ofWord? at ht
      repeat'
        split at ht
        · cases ht
          rfl
      cases ht
  | number cs =>
      obtain ⟨n, -, rfl⟩ := Option.map_eq_some_iff.1 h
      exact .inr ⟨.number n, rfl, rfl⟩
  | string us | escape us | hex us value digits => cases h

/-- Over a character, tokens are only added. If none is and nothing is under way, it was a blank between tokens. -/
structure Advances (s : Scan) (ts : List Token) (c : Char) (s' : Scan) (ts' : List Token) : Prop where
  keeps : ts <:+ ts'
  blank : s' = .between → ts' = ts → s = .between ∧ isBlank c = true

namespace Advances

theorem of_begun (h : s' ≠ .between) : Advances s ts c s' ts :=
  ⟨List.suffix_refl ts, fun hs => absurd hs h⟩

theorem of_token : Advances s ts c s' (t :: ts) :=
  ⟨List.suffix_cons t ts, fun _ h => by simp at h⟩

theorem of_scanFirst (h : scanFirst ts c = some (s', ts')) : Advances .between ts c s' ts' := by
  revert h
  fun_cases scanFirst ts c
  case case1 hblank =>
    rintro ⟨⟩
    exact ⟨List.suffix_refl _, fun _ _ => ⟨rfl, hblank⟩⟩
  case case2 | case9 | case10 =>
    rintro ⟨⟩
    exact of_begun (by simp)
  case case3 | case4 | case5 | case6 | case7 | case8 =>
    rintro ⟨⟩
    exact of_token
  case case11 => rintro ⟨⟩

theorem of_scanEnd {ended : List Token} (hend : scanEnd s ts = some ended)
    (hfirst : scanFirst ended c = some (s', ts')) : Advances s ts c s' ts' := by
  have h := of_scanFirst hfirst
  obtain ⟨rfl, rfl⟩ | ⟨t, rfl, -⟩ := scanEnd_cases hend
  · exact h
  · refine ⟨(List.suffix_cons t ts).trans h.keeps, ?_⟩
    rintro - rfl
    exact absurd h.keeps.length_le (by simp)

theorem of_scanStep (h : scanStep s ts c = some (s', ts')) : Advances s ts c s' ts' := by
  cases s with
  | between => exact of_scanFirst h
  | word cs | number cs =>
      simp only [scanStep] at h
      split at h
      · cases h
        exact of_begun (by simp)
      · obtain ⟨ended, hend, hfirst⟩ := Option.bind_eq_some_iff.1 h
        exact of_scanEnd hend hfirst
  | string us =>
      simp only [scanStep] at h
      split at h
      · cases h
        exact of_token
      split at h
      · cases h
        exact of_begun (by simp)
      split at h
      · cases h
      · cases h
        exact of_begun (by simp)
  | escape us =>
      simp only [scanStep] at h
      split at h
      · cases h
        exact of_begun (by simp)
      · obtain ⟨n, -, heq⟩ := Option.map_eq_some_iff.1 h
        cases heq
        exact of_begun (by simp)
  | hex us value digits =>
      simp only [scanStep] at h
      split at h
      · cases h
      · split at h <;>
        · cases h
          exact of_begun (by simp)

end Advances

theorem scanFrom_cons_eq_some (h : scanFrom s ts (c :: cs) = some found) :
    ∃ s' ts', scanStep s ts c = some (s', ts') ∧ scanFrom s' ts' cs = some found := by
  simp only [scanFrom] at h
  split at h
  · next s' ts' hstep => exact ⟨s', ts', hstep, h⟩
  · cases h

/-- The tokens that there were come first. If there are no others, the text was between tokens and stayed there. -/
theorem prefix_of_scanFrom (h : scanFrom s ts cs = some found) :
    ts.reverse <+: found ∧ (found = ts.reverse → s = .between ∧ ∀ c ∈ cs, isBlank c = true) := by
  induction cs generalizing s ts with
  | nil =>
      obtain ⟨ts', hend, rfl⟩ := Option.map_eq_some_iff.1 h
      obtain ⟨rfl, rfl⟩ | ⟨t, rfl, -⟩ := scanEnd_cases hend
      · exact ⟨List.prefix_refl _, fun _ => ⟨rfl, by simp⟩⟩
      · exact ⟨by simp, fun heq => by simp at heq⟩
  | cons c cs ih =>
      obtain ⟨s', ts', hstep, hrest⟩ := scanFrom_cons_eq_some h
      obtain ⟨hsuffix, hblank⟩ := Advances.of_scanStep hstep
      obtain ⟨hbegins, hblanks⟩ := ih hrest
      refine ⟨(List.reverse_prefix.2 hsuffix).trans hbegins, ?_⟩
      rintro rfl
      have hts : ts' = ts := (hsuffix.eq_of_length_le (by simpa using hbegins.length_le)).symm
      subst hts
      obtain ⟨hs', hcs⟩ := hblanks rfl
      obtain ⟨hs, hc⟩ := hblank hs' rfl
      exact ⟨hs, List.forall_mem_cons.2 ⟨hc, hcs⟩⟩

/-- Behind a token with an end of its own, scanning goes on as between tokens. -/
theorem scanFrom_append (h : scanFrom s ts cs = some found) (ht : ∃ t ∈ found.getLast?, t.isOpenEnded = false)
    (cs' : List Char) : scanFrom s ts (cs ++ cs') = scanFrom .between found.reverse cs' := by
  induction cs generalizing s ts with
  | nil =>
      obtain ⟨ts', hend, rfl⟩ := Option.map_eq_some_iff.1 h
      obtain ⟨rfl, rfl⟩ | ⟨t, rfl, hopen⟩ := scanEnd_cases hend
      · simp
      · obtain ⟨u, hu, hclosed⟩ := ht
        simp only [List.reverse_cons, List.getLast?_append, List.getLast?_singleton] at hu
        cases hu
        rw [hopen] at hclosed
        cases hclosed
  | cons c cs ih =>
      obtain ⟨s', ts', hstep, hrest⟩ := scanFrom_cons_eq_some h
      simp only [List.cons_append, scanFrom, hstep]
      exact ih hrest

/-! ## Reading on -/

variable {r r' : Reading} {j j' : Json}

theorem run_cons_eq_some (h : Reading.run r (t :: ts) = some j) : ∃ r', r.step t = some r' ∧ r'.run ts = some j := by
  simp only [Reading.run] at h
  split at h
  · next r' hstep => exact ⟨r', hstep, h⟩
  · cases h

theorem run_nil_eq_some (h : Reading.run r [] = some j) : r = .done j [] := by
  unfold Reading.run at h
  split at h
  · cases h
    rfl
  · cases h
  · simp_all

/-- Nothing follows a value that is inside no other. -/
theorem eq_nil_of_run_done (h : Reading.run (.done j []) ts = some j') : ts = [] := by
  cases ts with
  | nil => rfl
  | cons t ts =>
      obtain ⟨r', hstep, -⟩ := run_cons_eq_some h
      cases hstep

theorem run_append (h : Reading.run r ts = some j) (ts' : List Token) :
    Reading.run r (ts ++ ts') = Reading.run (.done j []) ts' := by
  induction ts generalizing r with
  | nil => rw [run_nil_eq_some h, List.nil_append]
  | cons t ts ih =>
      obtain ⟨r', hstep, hrest⟩ := run_cons_eq_some h
      simp only [List.cons_append, Reading.run, hstep]
      exact ih hrest

/-- There is an array or an object that has been opened and is not closed. -/
def Reading.Inside : Reading → Prop
  | .value fs | .done _ fs => fs ≠ []
  | _ => True

theorem Reading.Inside.begin {fs : List Frame} (hfs : fs ≠ []) (h : begin fs t = some r') : r'.Inside := by
  cases t <;> cases h <;> trivial

theorem Reading.Inside.of_done (ht : t.isOpenEnded = false) (j : Json) (fs : List Frame) :
    (done j fs).Inside ∨ t.isOpenEnded = false ∧ ∃ j', done j fs = done j' [] := by
  cases fs with
  | nil => exact .inr ⟨ht, j, rfl⟩
  | cons f fs => exact .inl (List.cons_ne_nil f fs)

/-- The outermost array or object is closed by a token that has an end of its own. -/
theorem Reading.Inside.step (h : r.Inside) (hstep : r.step t = some r') :
    r'.Inside ∨ t.isOpenEnded = false ∧ ∃ j, r' = .done j [] := by
  unfold Reading.step at hstep
  split at hstep
  case h_1 => exact .inl (Inside.begin h hstep)
  case h_3 => exact .inl (Inside.begin (List.cons_ne_nil _ _) hstep)
  case h_2 | h_4 | h_9 | h_11 =>
    cases hstep
    exact of_done rfl _ _
  case h_5 | h_6 | h_10 =>
    cases hstep
    exact .inl trivial
  case h_7 | h_8 =>
    cases hstep
    exact .inl (List.cons_ne_nil _ _)
  case h_12 => cases hstep

/-- What is read inside an array or an object ends with a token that has an end of its own. -/
theorem exists_getLast?_of_run (hr : r.Inside) (h : Reading.run r ts = some j) :
    ∃ t ∈ ts.getLast?, t.isOpenEnded = false := by
  induction ts generalizing r with
  | nil =>
      rw [run_nil_eq_some h] at hr
      exact absurd rfl hr
  | cons t ts ih =>
      obtain ⟨r', hstep, hrest⟩ := run_cons_eq_some h
      obtain hr' | ⟨ht, j', rfl⟩ := hr.step hstep
      · obtain ⟨u, hu, hclosed⟩ := ih hr' hrest
        exact ⟨u, List.mem_getLast?_cons hu, hclosed⟩
      · rw [eq_nil_of_run_done hrest]
        exact ⟨t, rfl, ht⟩

/-! ## Objects -/

/-- If the text of an object is read, and another one that begins with it too, there is nothing but blanks behind
it. -/
theorem isBlank_of_ofChars?_append {cs' : List Char} (h : ofChars? ('\x7b' :: cs) = some j)
    (h' : ofChars? ('\x7b' :: cs ++ cs') = some j') : ∀ c ∈ cs', isBlank c = true := by
  obtain ⟨found, hscan, hread⟩ := Option.bind_eq_some_iff.1 h
  obtain ⟨found', hscan', hread'⟩ := Option.bind_eq_some_iff.1 h'
  -- The first token opens the object, so the last one closes it.
  have hopened : scanFrom .between [.openObject] cs = some found := hscan
  obtain ⟨ts, rfl⟩ := (prefix_of_scanFrom hopened).1
  have hlast : ∃ t ∈ (.openObject :: ts).getLast?, t.isOpenEnded = false := by
    obtain ⟨t, ht, hclosed⟩ := exists_getLast?_of_run (r := .objectStart []) trivial hread
    exact ⟨t, List.mem_getLast?_cons ht, hclosed⟩
  have hon := scanFrom_append hscan hlast cs'
  obtain ⟨hbegins, hblank⟩ := prefix_of_scanFrom (hon.symm.trans hscan')
  rw [List.reverse_reverse] at hbegins hblank
  obtain ⟨more, rfl⟩ := hbegins
  have hmore : more = [] := eq_nil_of_run_done ((run_append hread more).symm.trans hread')
  rw [hmore, List.append_nil] at hblank
  exact (hblank rfl).2

end BrokerClient.Json
