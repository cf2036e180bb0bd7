import BrokerClient.Proofs.Json.Fields
import Mathlib.Data.List.Perm.Basic

/-!
# Members in another order

The members of an object have no order of their own: a tree in which they come in another one is read as a record with
the same fields (`fields?_of_rearranged`), and can be written if the tree itself can (`Rearranged.legible`).
-/
namespace BrokerClient.Json

mutual

/-- The same tree, but for the order of the members of its objects, at any depth. -/
inductive Rearranged : Json → Json → Prop where
  | null : Rearranged .null .null
  | bool (b : Bool) : Rearranged (.bool b) (.bool b)
  | number (n : NumberText) : Rearranged (.number n) (.number n)
  | string (us : Units) : Rearranged (.string us) (.string us)
  | array {xs ys : List Json} (h : ItemsRearranged xs ys) : Rearranged (.array xs) (.array ys)
  | object {ms ns ns' : List (Units × Json)} (h : MembersRearranged ms ns) (hp : ns.Perm ns') :
      Rearranged (.object ms) (.object ns')

inductive ItemsRearranged : List Json → List Json → Prop where
  | nil : ItemsRearranged [] []
  | cons {x y : Json} {xs ys : List Json} (h : Rearranged x y) (hs : ItemsRearranged xs ys) :
      ItemsRearranged (x :: xs) (y :: ys)

/-- The keys are the same, one by one. -/
inductive MembersRearranged : List (Units × Json) → List (Units × Json) → Prop where
  | nil : MembersRearranged [] []
  | cons {x y : Json} {ms ns : List (Units × Json)} (key : Units) (h : Rearranged x y) (hs : MembersRearranged ms ns) :
      MembersRearranged ((key, x) :: ms) ((key, y) :: ns)

end

mutual

theorem Rearranged.refl : (j : Json) → Rearranged j j
  | .null => .null
  | .bool b => .bool b
  | .number n => .number n
  | .string us => .string us
  | .array xs => .array (ItemsRearranged.refl xs)
  | .object ms => .object (MembersRearranged.refl ms) (List.Perm.refl ms)

theorem ItemsRearranged.refl : (xs : List Json) → ItemsRearranged xs xs
  | [] => .nil
  | x :: xs => .cons (Rearranged.refl x) (ItemsRearranged.refl xs)

theorem MembersRearranged.refl : (ms : List (Units × Json)) → MembersRearranged ms ms
  | [] => .nil
  | (key, x) :: ms => .cons key (Rearranged.refl x) (MembersRearranged.refl ms)

end

/-! ## Inversion -/

variable {j : Json}

theorem Rearranged.eq_bool {b : Bool} (h : (Json.bool b).Rearranged j) : j = .bool b := by
  cases h
  rfl

theorem Rearranged.eq_nat {n : Nat} (h : (ofNat n).Rearranged j) : j = ofNat n := by
  cases h
  rfl

theorem Rearranged.eq_int {i : Int} (h : (ofInt i).Rearranged j) : j = ofInt i := by
  cases h
  rfl

theorem Rearranged.eq_text {s : String} (h : (ofText s).Rearranged j) : j = ofText s := by
  cases h
  rfl

theorem Rearranged.exists_items {xs : List Json} (h : (Json.array xs).Rearranged j) :
    ∃ ys, j = .array ys ∧ ItemsRearranged xs ys := by
  cases h with
  | array hs => exact ⟨_, rfl, hs⟩

theorem Rearranged.exists_members {ms : List (Units × Json)} (h : (Json.object ms).Rearranged j) :
    ∃ ns ns', j = .object ns' ∧ MembersRearranged ms ns ∧ ns.Perm ns' := by
  cases h with
  | object hs hp => exact ⟨_, _, rfl, hs, hp⟩

/-- An object with one member has only one order. -/
theorem Rearranged.exists_member {kind : String} {x : Json} (h : (ofMembers [(kind, x)]).Rearranged j) :
    ∃ y, j = ofMembers [(kind, y)] ∧ x.Rearranged y := by
  obtain ⟨ns, ns', rfl, hs, hp⟩ := h.exists_members
  cases hs with
  | cons key hx hs =>
      cases hs
      rw [List.singleton_perm] at hp
      exact ⟨_, by rw [← hp]; rfl, hx⟩

/-! ## Writing -/

theorem membersLegible_iff {ms : List (Units × Json)} :
    MembersLegible ms ↔ ∀ m ∈ ms, (∀ u ∈ m.1, IsCodePoint u) ∧ m.2.Legible := by
  induction ms with
  | nil => simp [MembersLegible]
  | cons m ms ih => simp only [MembersLegible, ih, List.forall_mem_cons, and_assoc]

theorem legible_ofText (s : String) : (ofText s).Legible :=
  fun _ => isCodePoint_of_mem_unitsOf

theorem legible_ofNat (n : Nat) : (ofNat n).Legible :=
  NumberText.wellFormed_integer false n

theorem legible_ofInt (i : Int) : (ofInt i).Legible :=
  NumberText.wellFormed_integer _ i.natAbs

theorem legible_ofMembers {ms : List (String × Json)} (h : ∀ m ∈ ms, m.2.Legible) : (ofMembers ms).Legible := by
  refine membersLegible_iff.2 fun m hm => ?_
  obtain ⟨m', hm', rfl⟩ := List.mem_map.1 hm
  exact ⟨fun _ => isCodePoint_of_mem_unitsOf, h m' hm'⟩

mutual

theorem Rearranged.legible {j j' : Json} (h : Rearranged j j') (hj : j.Legible) : j'.Legible := by
  match h with
  | .null | .bool _ | .number _ | .string _ => exact hj
  | .array hxs => exact hxs.legible hj
  | .object hms hp =>
      have hns := membersLegible_iff.1 (hms.legible hj)
      exact membersLegible_iff.2 fun m hm => hns m (hp.mem_iff.2 hm)

theorem ItemsRearranged.legible {xs ys : List Json} (h : ItemsRearranged xs ys) (hxs : ItemsLegible xs) :
    ItemsLegible ys := by
  match h with
  | .nil => trivial
  | .cons hx hs => exact ⟨hx.legible hxs.1, hs.legible hxs.2⟩

theorem MembersRearranged.legible {ms ns : List (Units × Json)} (h : MembersRearranged ms ns)
    (hms : MembersLegible ms) : MembersLegible ns := by
  match h with
  | .nil => trivial
  | .cons _ hx hs => exact ⟨hms.1, hx.legible hms.2.1, hs.legible hms.2.2⟩

end

/-! ## Nesting -/

theorem membersNestWithin_iff {n : Nat} {ms : List (Units × Json)} :
    membersNestWithin n ms = true ↔ ∀ m ∈ ms, m.2.nestsWithin n = true := by
  induction ms with
  | nil => simp [membersNestWithin]
  | cons m ms ih => simp only [membersNestWithin, Bool.and_eq_true, ih, List.forall_mem_cons]

mutual

theorem Rearranged.nestsWithin {n : Nat} {j j' : Json} (h : Rearranged j j') (hj : j.nestsWithin n = true) :
    j'.nestsWithin n = true := by
  match n, h with
  | _, .null | _, .bool _ | _, .number _ | _, .string _ => exact hj
  | 0, .array _ | 0, .object _ _ => cases hj
  | _ + 1, .array hxs => exact hxs.nestWithin hj
  | _ + 1, .object hms hp =>
      have hns := membersNestWithin_iff.1 (hms.nestWithin hj)
      exact membersNestWithin_iff.2 fun m hm => hns m (hp.mem_iff.2 hm)

theorem ItemsRearranged.nestWithin {n : Nat} {xs ys : List Json} (h : ItemsRearranged xs ys)
    (hxs : itemsNestWithin n xs = true) : itemsNestWithin n ys = true := by
  match h with
  | .nil => exact hxs
  | .cons hx hs =>
      obtain ⟨hfirst, hrest⟩ := Bool.and_eq_true_iff.1 hxs
      exact Bool.and_eq_true_iff.2 ⟨hx.nestsWithin hfirst, hs.nestWithin hrest⟩

theorem MembersRearranged.nestWithin {n : Nat} {ms ns : List (Units × Json)} (h : MembersRearranged ms ns)
    (hms : membersNestWithin n ms = true) : membersNestWithin n ns = true := by
  match h with
  | .nil => exact hms
  | .cons _ hx hs =>
      obtain ⟨hfirst, hrest⟩ := Bool.and_eq_true_iff.1 hms
      exact Bool.and_eq_true_iff.2 ⟨hx.nestsWithin hfirst, hs.nestWithin hrest⟩

end

/-! ## Reading -/

variable {ms ns : List (String × Json)}

theorem exists_map_of_perm {ns' : List (Units × Json)} (h : (ns.map member).Perm ns') :
    ∃ found : List (String × Json), ns' = found.map member ∧ ns.Perm found := by
  have hcomp : Relation.Comp (· = List.map member ·) List.Perm ns' ns := by
    rw [List.eq_map_comp_perm]
    exact h.symm
  obtain ⟨found, hfound, hp⟩ := hcomp
  exact ⟨found, hfound, hp.symm⟩

/-- Each member is found again, rearranged. -/
theorem MembersRearranged.exists_map {ns : List (Units × Json)} (h : MembersRearranged (ms.map member) ns) :
    ∃ ns' : List (String × Json), ns = ns'.map member ∧ ns'.map (·.1) = ms.map (·.1) ∧
      ∀ m ∈ ms, ∃ y, (m.1, y) ∈ ns' ∧ m.2.Rearranged y := by
  induction ms generalizing ns with
  | nil =>
      cases h
      exact ⟨[], rfl, rfl, by simp⟩
  | cons m ms ih =>
      cases h with
      | @cons _ y _ _ _ hx hs =>
          obtain ⟨ns', rfl, hkeys, hfound⟩ := ih hs
          refine ⟨(m.1, y) :: ns', rfl, by simp [hkeys], fun m' hm' => ?_⟩
          rcases List.mem_cons.1 hm' with rfl | hm'
          · exact ⟨y, List.mem_cons_self, hx⟩
          · obtain ⟨y, hy, hr⟩ := hfound m' hm'
            exact ⟨y, List.mem_cons_of_mem _ hy, hr⟩

/-- A record with different names is read from any rearrangement: what is read under a name is the value of its member,
rearranged, and nests less deep than the record. -/
theorem fields?_of_rearranged (isOpen : Bool) (names : List String) (h : (ofMembers ms).Rearranged j)
    (hn : (ms.map (·.1)).Nodup) (hnames : names ⊆ ms.map (·.1)) (hclosed : isOpen = true ∨ ms.map (·.1) ⊆ names) :
    ∃ found : String → Json, j.fields? isOpen names = some (names.map fun name => some (found name)) ∧
      (∀ m ∈ ms, m.2.Rearranged (found m.1)) ∧
      ∀ n, j.nestsWithin (n + 1) = true → ∀ name ∈ names, (found name).nestsWithin n = true := by
  cases h with
  | object h hp =>
      obtain ⟨ns, rfl, hkeys, hfound⟩ := MembersRearranged.exists_map h
      obtain ⟨ms', rfl, hperm⟩ := exists_map_of_perm hp
      -- the names are still different, so each of them is found once, wherever it stands
      have hkeysPerm : (ms.map (·.1)).Perm (ms'.map (·.1)) := hkeys ▸ hperm.map _
      have hnodup : (ms'.map (·.1)).Nodup := hkeysPerm.nodup_iff.1 hn
      have hread : ∀ name ∈ names, (name, memberValue ms' name) ∈ ms' := fun name hname => by
        obtain ⟨m, hm, rfl⟩ := List.mem_map.1 (hkeysPerm.mem_iff.1 (hnames hname))
        rw [memberValue_of_mem hnodup hm]
        exact hm
      have hnamed : (isOpen || ms'.all fun m => names.contains m.1) = true := by
        rcases hclosed with rfl | hclosed
        · rfl
        · have hall : ∀ m ∈ ms', m.1 ∈ names := fun m hm =>
            hclosed (hkeysPerm.mem_iff.2 (List.mem_map_of_mem hm))
          simpa using Or.inr hall
      refine ⟨memberValue ms', ?_, fun m hm => ?_, fun n hnests name hname => ?_⟩
      · simp only [fields?, keyed?_map_member, hnamed, if_true, mapM_field? hnodup hread]
      · obtain ⟨y, hy, hr⟩ := hfound m hm
        rw [memberValue_of_mem hnodup (hperm.mem_iff.1 hy)]
        exact hr
      · exact membersNestWithin_iff.1 hnests _ (List.mem_map_of_mem (hread name hname))

end BrokerClient.Json
