import StreamControl.Json.Decode
import StreamControl.Proofs.Json.RoundTrip
import Mathlib.Data.List.Nodup

/-!
# Reading what was built

The readers of `Json.Decode` on values that were built from texts, numbers and records:
`record?_record` finds in a record the members it was built from, and `tagged?_record` the variant
that its first member names. What is built is canonical.
-/

namespace StreamControl

namespace Json

/-! ## Canonical values -/

theorem canonical_string (s : String) : (string s).Canonical := ⟨s, rfl⟩

theorem canonical_nat (n : Nat) : (nat n).Canonical := wellFormed_ofNat n

theorem canonical_float (x : Float) : (float x).Canonical := by
  unfold float
  split
  · rename_i n h
    exact wellFormed_ofFloat? h
  · trivial

theorem canonical_record {members : List (String × Json)} (h : ∀ m ∈ members, m.2.Canonical) :
    (record members).Canonical := by
  show CanonicalMembers (members.map _)
  induction members with
  | nil => trivial
  | cons m members ih =>
    exact ⟨⟨m.1, rfl⟩, h m List.mem_cons_self, ih fun m' hm => h m' (List.mem_cons_of_mem m hm)⟩

theorem canonical_array {items : List Json} (h : ∀ v ∈ items, v.Canonical) :
    (array items).Canonical := by
  show CanonicalItems items
  induction items with
  | nil => trivial
  | cons v items ih =>
    exact ⟨h v List.mem_cons_self, ih fun v' hv => h v' (List.mem_cons_of_mem v hv)⟩

/-! ## Plain values -/

@[simp] theorem string?_string (s : String) : string? (string s) = some s := toText?_piecesOf s

theorem natBelow?_nat {bound n : Nat} (hb : n < bound) (h : n < 2 ^ 64) :
    natBelow? bound (nat n) = some n := by
  simp [natBelow?, nat, value?_ofNat h, hb]

@[simp] theorem uint32?_nat (n : UInt32) : uint32? (nat n.toNat) = some n := by
  have h := n.toNat_lt
  rw [uint32?, nat32?, natBelow?_nat h (by omega)]
  simp

@[simp] theorem uint64?_nat (n : UInt64) : uint64? (nat n.toNat) = some n := by
  rw [uint64?, nat64?, natBelow?_nat n.toNat_lt n.toNat_lt]
  simp

theorem list?_map {α : Type} {read : Json → Option α} {write : α → Json} {xs : List α}
    (h : ∀ x ∈ xs, read (write x) = some x) :
    list? read (array (xs.map write)) = some xs := by
  show (xs.map write).mapM read = some xs
  induction xs with
  | nil => rfl
  | cons x xs ih =>
    have ih := ih fun y hy => h y (List.mem_cons_of_mem x hy)
    simp [List.mapM_cons, h x List.mem_cons_self, ih]

/-! ## Records -/

variable {names : List String} {found : List (String × Json)} {name : String} {v : Json}

theorem lookup_fresh (h : name ∉ found.map (·.1)) : found.lookup name = none := by
  rw [List.lookup_eq_none_iff]
  intro m hm
  exact bne_iff_ne.mpr fun he => h (he ▸ List.mem_map_of_mem hm)

theorem lookup_concat (h : name ∉ found.map (·.1)) (other : String) :
    (found ++ [(name, v)]).lookup other = if other = name then some v else found.lookup other := by
  rw [List.lookup_append, List.lookup_cons]
  by_cases e : other = name
  · subst e
    simp [lookup_fresh h]
  · have hb : (other == name) = false := beq_eq_false_iff_ne.mpr e
    simp [e, hb]

/-- A new member is put in its place among the fields. -/
theorem addField?_lookup (hn : names.Nodup) (h : name ∉ found.map (·.1)) :
    addField? names (names.map fun n => found.lookup n) name v =
      some (names.map fun n => (found ++ [(name, v)]).lookup n) := by
  have hnone := lookup_fresh h
  unfold addField?
  cases hi : names.idxOf? name with
  | none =>
    have hname : name ∉ names := List.idxOf?_eq_none_iff.mp hi
    refine congrArg some (List.map_congr_left fun n hmem => ?_)
    rw [lookup_concat h, if_neg (by rintro rfl; exact hname hmem)]
  | some i =>
    obtain ⟨hlt, hget⟩ : ∃ hlt : i < names.length, names[i] = name := by
      obtain ⟨hlt, hget, -⟩ := List.findIdx?_eq_some_iff_getElem.mp hi
      exact ⟨hlt, beq_iff_eq.mp hget⟩
    have hfree : (names.map fun n => found.lookup n)[i]?.join.isSome = false := by
      rw [List.getElem?_map, List.getElem?_eq_getElem hlt, hget, Option.map_some, hnone]
      rfl
    simp only [hfree, Bool.false_eq_true, ↓reduceIte]
    refine congrArg some (List.ext_getElem (by simp) fun j h₁ h₂ => ?_)
    rw [List.getElem_set, List.getElem_map, List.getElem_map, lookup_concat h]
    by_cases hij : i = j
    · subst hij
      rw [if_pos rfl, if_pos hget]
    · rw [if_neg hij, if_neg]
      rintro hj
      exact hij ((List.Nodup.getElem_inj_iff hn).mp (hget.trans hj.symm))

theorem foldlM_addField? (hn : names.Nodup) (members : List (String × Json))
    (hm : ((found ++ members).map (·.1)).Nodup) :
    (members.map fun (name, v) => (piecesOf name, v)).foldlM
        (fun fields (name, v) => do addField? names fields (← toText? name) v)
        (names.map fun n => found.lookup n) =
      some (names.map fun n => (found ++ members).lookup n) := by
  induction members generalizing found with
  | nil => simp
  | cons m members ih =>
    obtain ⟨name, v⟩ := m
    have hfresh : name ∉ found.map (·.1) := by
      rw [List.map_append, List.map_cons] at hm
      exact fun hmem => (List.nodup_append.mp hm).2.2 name hmem name List.mem_cons_self rfl
    have ih := @ih (found ++ [(name, v)]) (by rwa [List.append_assoc])
    rw [List.append_assoc] at ih
    rw [List.map_cons, List.foldlM_cons]
    show (toText? (piecesOf name)).bind
      (addField? names (names.map fun n => found.lookup n) · v) >>= _ = _
    rw [toText?_piecesOf, Option.bind_some, addField?_lookup hn hfresh]
    exact ih

/-- A record has the members it was built from. -/
theorem record?_record (hn : names.Nodup) (members : List (String × Json))
    (hm : (members.map (·.1)).Nodup) :
    record? names (record members) = some (names.map fun n => members.lookup n) := by
  have hfold := @foldlM_addField? names [] hn members hm
  exact hfold

/-! ## Tagged values -/

theorem splitTag?_other {tag : String} (members : List (String × Json))
    (h : tag ∉ members.map (·.1)) :
    splitTag? tag (members.map fun (name, v) => (piecesOf name, v)) =
      some ([], members.map fun (name, v) => (piecesOf name, v)) := by
  induction members with
  | nil => rfl
  | cons m members ih =>
    obtain ⟨name, v⟩ := m
    simp only [List.map_cons, List.mem_cons, not_or] at h
    rw [List.map_cons, splitTag?, ih h.2]
    show (toText? (piecesOf name)).bind _ = _
    rw [toText?_piecesOf, Option.bind_some, if_neg (Ne.symm h.1)]

/-- A record that has its tag in front, and members that can be buffered behind it. -/
theorem tagged?_record {tag variant : String} {variants : List String} {source : Source} {i : Nat}
    {members : List (String × Json)} (hi : variants.idxOf? variant = some i)
    (h : tag ∉ members.map (·.1)) (hb : ∀ m ∈ members, canBuffer source.inner m.2 = true) :
    tagged? tag variants source (record ((tag, string variant) :: members)) =
      some (i, record members) := by
  have hsplit :
      splitTag? tag ((piecesOf tag, string variant) :: members.map fun (name, v) =>
          (piecesOf name, v)) =
        some ([string variant], members.map fun (name, v) => (piecesOf name, v)) := by
    rw [splitTag?, splitTag?_other members h]
    show (toText? (piecesOf tag)).bind _ = _
    rw [toText?_piecesOf, Option.bind_some, if_pos rfl]
  have hvariant : variant? source variants (string variant) = some i := by
    show (toText? (piecesOf variant)).bind _ = _
    rw [toText?_piecesOf, Option.bind_some, hi]
  have hall :
      (members.map fun (name, v) => (piecesOf name, v)).all
      (fun (_, v) => canBuffer source.inner v) = true := by
    rw [List.all_map, List.all_eq_true]
    exact hb
  show (splitTag? tag ((piecesOf tag, string variant) :: _)).bind _ = _
  rw [hsplit, Option.bind_some]
  simp only [hall, ↓reduceIte, hvariant]
  rfl

end Json

end StreamControl
