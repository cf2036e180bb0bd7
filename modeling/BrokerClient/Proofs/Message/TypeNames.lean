import BrokerClient.Proofs.Message.TypeProperty

/-!
# Registries of types

A registry writes every type under its own name unless that is too long, and finds just the types that it knows.
-/
namespace BrokerClient.TypeNames

variable {known : List MessageType} {t : MessageType} {name : String}

/-! ## Writing -/

theorem nameOf_registry (known : List MessageType) (h : t.name.length ≤ nameLimit) :
    (registry known).nameOf t = .ok t.name :=
  if_neg (Nat.not_lt.2 h)

theorem nameOf_registry_eq_ok_iff :
    (registry known).nameOf t = .ok name ↔ t.name.length ≤ nameLimit ∧ name = t.name := by
  simp only [registry]
  split
  · rename_i hlong
    simp [Nat.not_le.2 hlong]
  · rename_i hshort
    simp [Nat.not_lt.1 hshort, eq_comm]

theorem eq_of_nameOf_registry (h : (registry known).nameOf t = .ok name) : name = t.name :=
  (nameOf_registry_eq_ok_iff.1 h).2

/-- All names are written if none is too long, and they are the identities of the types. -/
theorem map_nameOf_registry_iff {ts : List MessageType} {wire : List String} :
    ts.map (registry known).nameOf = wire.map .ok ↔
      (∀ u ∈ ts, u.name.length ≤ nameLimit) ∧ wire = ts.map MessageType.name := by
  induction ts generalizing wire with
  | nil => simp [eq_comm]
  | cons u us ih =>
      cases wire with
      | nil => simp
      | cons name wire =>
          simp only [List.map_cons, List.cons.injEq, ih, nameOf_registry_eq_ok_iff, List.forall_mem_cons]
          tauto

theorem namesChain_registry {s : Supersession} {ts : List MessageType} (known : List MessageType)
    (hl : s.Lineage t ts) (h : ∀ u ∈ ts, u.name.length ≤ nameLimit) :
    (registry known).NamesChain s t (ts.map MessageType.name) :=
  ⟨ts, hl, map_nameOf_registry_iff.2 ⟨h, rfl⟩⟩

/-! ## Reading -/

theorem typeOf_registry (h : t ∈ known) : (registry known).typeOf t.name = .ok t := by
  have hsome : (known.find? (fun u => u.name = t.name)).isSome = true := by
    rw [List.find?_isSome]
    exact ⟨t, h, by simp⟩
  obtain ⟨u, hu⟩ := Option.isSome_iff_exists.1 hsome
  have hname : u.name = t.name := by simpa using List.find?_some hu
  obtain rfl : u = t := congrArg MessageType.mk hname
  simp only [registry, hu]

theorem error_of_typeOf_registry {e : UnknownType} (h : (registry known).typeOf name = .error e) : e = ⟨[name]⟩ := by
  simp only [registry] at h
  split at h
  · cases h
  · cases h; rfl

theorem not_knows_of_error {names : TypeNames} {e : UnknownType} (h : names.typeOf name = .error e) :
    ¬names.Knows name := by
  rintro ⟨t, ht⟩
  rw [h] at ht
  cases ht

theorem not_knows_registry (h : t ∉ known) : ¬(registry known).Knows t.name := by
  rintro ⟨u, hu⟩
  simp only [registry] at hu
  split at hu
  · rename_i found hfound
    cases hu
    have hname : u.name = t.name := by simpa using List.find?_some hfound
    obtain rfl : u = t := congrArg MessageType.mk hname
    exact h (List.mem_of_find?_eq_some hfound)
  · cases hu

end BrokerClient.TypeNames
