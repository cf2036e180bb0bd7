import BrokerClient.Properties

/-!
# Header values and their parts

What holds of a value and of all values inside it (`Throughout`). A value without a NaN is the same as itself
(`same_self`), and so are properties with such headers.
-/
namespace BrokerClient

namespace HeaderValue

variable {P Q : HeaderValue → Prop}

mutual

/-- A value and all the values inside it have the property. -/
def Throughout (P : HeaderValue → Prop) : HeaderValue → Prop
  | .array xs => P (.array xs) ∧ ItemsThroughout P xs
  | .table es => P (.table es) ∧ EntriesThroughout P es
  | v => P v

def ItemsThroughout (P : HeaderValue → Prop) : List HeaderValue → Prop
  | [] => True
  | x :: xs => x.Throughout P ∧ ItemsThroughout P xs

def EntriesThroughout (P : HeaderValue → Prop) : List (String × HeaderValue) → Prop
  | [] => True
  | (_, x) :: es => x.Throughout P ∧ EntriesThroughout P es

end

mutual

theorem Throughout.imp (h : ∀ v, P v → Q v) : (v : HeaderValue) → v.Throughout P → v.Throughout Q
  | .array xs, ⟨hv, hxs⟩ => ⟨h _ hv, ItemsThroughout.imp h xs hxs⟩
  | .table es, ⟨hv, hes⟩ => ⟨h _ hv, EntriesThroughout.imp h es hes⟩
  | .void, hv | .bool _, hv | .int _, hv | .float _, hv | .string _, hv | .bytes _, hv => h _ hv

theorem ItemsThroughout.imp (h : ∀ v, P v → Q v) :
    (xs : List HeaderValue) → ItemsThroughout P xs → ItemsThroughout Q xs
  | [], _ => trivial
  | x :: xs, ⟨hx, hxs⟩ => ⟨Throughout.imp h x hx, ItemsThroughout.imp h xs hxs⟩

theorem EntriesThroughout.imp (h : ∀ v, P v → Q v) :
    (es : List (String × HeaderValue)) → EntriesThroughout P es → EntriesThroughout Q es
  | [], _ => trivial
  | (_, x) :: es, ⟨hx, hes⟩ => ⟨Throughout.imp h x hx, EntriesThroughout.imp h es hes⟩

end

def NoFloat : HeaderValue → Prop
  | .float _ => False
  | _ => True

def NoNaN : HeaderValue → Prop
  | .float x => x.isNaN = false
  | _ => True

theorem NoFloat.noNaN {v : HeaderValue} (h : NoFloat v) : NoNaN v := by
  cases v with
  | float => cases h
  | _ => trivial

/-! ## Sameness -/

mutual

theorem same_self : (v : HeaderValue) → v.Throughout NoNaN → v.same v = true
  | .void, _ => by simp [same]
  | .bool _, _ => by simp [same]
  | .int _, _ => by simp [same]
  | .float x, h => by
      have hx : x.isNaN = false := h
      simp [same, Binary64.sameValue, hx]
  | .string _, _ => by simp [same]
  | .bytes _, _ => by simp [same]
  | .array xs, h => by simpa [same] using itemsSame_self xs h.2
  | .table es, h => by simpa [same] using entriesSame_self es h.2

theorem itemsSame_self : (xs : List HeaderValue) → ItemsThroughout NoNaN xs → itemsSame xs xs = true
  | [], _ => by simp [itemsSame]
  | x :: xs, h => by simp [itemsSame, same_self x h.1, itemsSame_self xs h.2]

theorem entriesSame_self :
    (es : List (String × HeaderValue)) → EntriesThroughout NoNaN es → entriesSame es es = true
  | [], _ => by simp [entriesSame]
  | (_, x) :: es, h => by simp [entriesSame, same_self x h.1, entriesSame_self es h.2]

end

end HeaderValue

theorem Properties.same_self {p : Properties} (h : HeaderValue.EntriesThroughout HeaderValue.NoNaN p.headers.entries) :
    p.same p = true := by
  simp [same, HeaderValue.entriesSame_self _ h]

end BrokerClient
