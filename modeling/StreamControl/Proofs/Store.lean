import StreamControl.Store.Basic

/-!
# What the store's operations do to a look-up

A store is seen through `Store.find?`. Each operation that writes changes what is found under the
identity it is about, and nothing else (`find?_place`, `find?_replace`, `find?_erase`). The lemmas
on `Store.apply` say when a conditional call writes: `apply_insert`, `apply_swap`, `apply_remove`
and `apply_setPhase` give the two things each can come to. A call about a stream does not depend on
the other streams (`apply_congr`).
-/

namespace StreamControl

namespace Store

variable {s s' : Store} {id : StreamId} {record current : Record Float}

theorem id_of_find? (h : s.find? id = some record) : record.id = id := by
  simpa using List.find?_some h

theorem find?_place {records : List (Record Float)} (record : Record Float)
    (h : records.find? (·.id = record.id) = none) (id : StreamId) :
    (place record records).find? (·.id = id) =
      if record.id = id then some record else records.find? (·.id = id) := by
  induction records with
  | nil => by_cases e : record.id = id <;> simp [place, e]
  | cons r rest ih =>
    simp only [List.find?_cons] at h
    split at h
    · cases h
    · rename_i hr
      simp only [decide_eq_false_iff_not] at hr
      rw [place]
      by_cases e : record.id = id
      · subst e
        split
        · simp
        · simp [hr, ih h]
      · split
        · simp [e]
        · simp [List.find?_cons, ih h, e]

theorem find?_replace (record : Record Float) (h : s.find? record.id = some current)
    (id : StreamId) :
    (s.replace record).find? id = if record.id = id then some record else s.find? id := by
  have e : ∀ rs : List (Record Float),
    (rs.map fun r => if r.id = record.id then record else r).find? (·.id = id) =
      if record.id = id then (rs.find? (·.id = id)).map fun _ =>
          record else rs.find? (·.id = id) := by
    intro rs
    induction rs with
    | nil => simp
    | cons r rest ih =>
      by_cases h₁ : r.id = record.id
      · by_cases h₂ : record.id = id <;> simp [h₁, h₂, ih]
      · by_cases h₂ : record.id = id
        · subst h₂; simp [h₁, ih]
        · by_cases h₃ : r.id = id
          · simp [h₃, h₂, Ne.symm h₂]
          · simp [h₁, h₂, h₃, ih]
  rw [find?, replace, e]
  split
  · rename_i hid
    rw [← hid, show s.records.find? (·.id = record.id) = some current from h]
    rfl
  · rfl

theorem find?_erase (s : Store) (id id' : StreamId) :
    (s.erase id).find? id' = if id = id' then none else s.find? id' := by
  simp only [find?, erase]
  induction s.records with
  | nil => simp
  | cons r rest ih =>
    by_cases h₁ : r.id = id
    · by_cases h₂ : id = id'
      · simp_all
      · have : r.id ≠ id' := h₁ ▸ h₂
        simp_all
    · by_cases h₂ : r.id = id'
      · have : id ≠ id' := fun e => h₁ (h₂.trans e.symm)
        simp [h₂, this, Ne.symm this]
      · simp_all

/-! ## Calls -/

theorem apply_insert {r : StoreCall.Reply (.insert record)}
    (h : apply (.insert record) s = (s', r)) :
    (∃ existing, s' = s ∧ s.find? record.id = some existing ∧
      r = .ok (.alreadyExists existing.version)) ∨
      s.find? record.id = none ∧ r = .ok (.success 1) ∧
        ∀ id, s'.find? id = if record.id = id then some { record with version := 1 } else
        s.find? id := by
  simp only [apply, insert] at h
  cases hf : s.find? record.id with
  | some existing =>
    rw [hf] at h
    cases h
    exact .inl ⟨existing, rfl, rfl, rfl⟩
  | none =>
    rw [hf] at h
    cases h
    exact .inr ⟨rfl, rfl, fun id => find?_place { record with version := 1 } hf id⟩

/-- A conditional write is made if the stored version is the expected one. -/
theorem apply_swap {expected : Nat} {r : StoreCall.Reply (.swap expected record)}
    (h : apply (.swap expected record) s = (s', r)) :
    (s' = s ∧ s.find? record.id = none ∧ r = .ok .notFound) ∨
    (∃ current, s' = s ∧ s.find? record.id = some current ∧ current.version ≠ expected ∧
      r = .ok (.mismatch current.version)) ∨
    ∃ current, s.find? record.id = some current ∧ current.version = expected ∧
      r = .ok (.success (expected + 1)) ∧
      ∀ id, s'.find? id = if record.id = id then some { record with version := expected + 1 } else
      s.find? id := by
  simp only [apply, swap] at h
  cases hf : s.find? record.id with
  | none =>
    rw [hf] at h
    cases h
    exact .inl ⟨rfl, rfl, rfl⟩
  | some current =>
    rw [hf] at h
    by_cases hv : current.version = expected
    · simp only [hv, ↓reduceIte] at h
      cases h
      exact .inr (.inr ⟨current, rfl, hv, rfl,
        fun id => find?_replace { record with version := expected + 1 } hf id⟩)
    · simp only [hv, ↓reduceIte] at h
      cases h
      exact .inr (.inl ⟨current, rfl, rfl, hv, rfl⟩)

theorem apply_remove {expected : Nat} {r : StoreCall.Reply (.remove id expected)}
    (h : apply (.remove id expected) s = (s', r)) :
    (s' = s ∧ s.find? id = none ∧ r = .ok .notFound) ∨
    (∃ current, s' = s ∧ s.find? id = some current ∧ current.version ≠ expected ∧
      r = .ok (.mismatch current.version)) ∨
    ∃ current, s.find? id = some current ∧ current.version = expected ∧
      r = .ok (.success (expected + 1)) ∧
      ∀ id', s'.find? id' = if id = id' then none else s.find? id' := by
  simp only [apply, remove] at h
  cases hf : s.find? id with
  | none =>
    rw [hf] at h
    cases h
    exact .inl ⟨rfl, rfl, rfl⟩
  | some current =>
    rw [hf] at h
    by_cases hv : current.version = expected
    · simp only [hv, ↓reduceIte] at h
      cases h
      exact .inr (.inr ⟨current, rfl, hv, rfl, find?_erase s id⟩)
    · simp only [hv, ↓reduceIte] at h
      cases h
      exact .inr (.inl ⟨current, rfl, rfl, hv, rfl⟩)

theorem apply_setPhase {phase : Phase} {r : StoreCall.Reply (.setPhase id phase)}
    (h : apply (.setPhase id phase) s = (s', r)) :
    (s' = s ∧ s.find? id = none ∧ r = .error (.streamNotFound id)) ∨
    ∃ current, s.find? id = some current ∧ r = .ok () ∧
      ∀ id', s'.find? id' =
        if id = id' then some { current.releasedTo phase with version := current.version + 1 } else
        s.find? id' := by
  simp only [apply, setPhase] at h
  cases hf : s.find? id with
  | none =>
    rw [hf] at h
    cases h
    exact .inl ⟨rfl, rfl, rfl⟩
  | some current =>
    rw [hf] at h
    cases h
    have hid := id_of_find? hf
    subst hid
    exact .inr ⟨current, rfl, rfl, fun id =>
      find?_replace { current.releasedTo phase with version := current.version + 1 } hf id⟩

/-- What a call about a stream is answered, and what it leaves of the stream, depends on the
stream's record alone. -/
theorem apply_congr {c : StoreCall} (hc : c.stream? = some id) (h : s.find? id = s'.find? id) :
    (apply c s).2 = (apply c s').2 ∧ (apply c s).1.find? id = (apply c s').1.find? id := by
  cases hs : apply c s with
  | mk t r =>
  cases hs' : apply c s' with
  | mk t' r' =>
  cases c with
  | get stream =>
    cases hc
    cases hs
    cases hs'
    exact ⟨congrArg Except.ok h, h⟩
  | list scope => cases hc
  | insert record =>
    cases hc
    rcases apply_insert hs with ⟨x, rfl, hx, rfl⟩ | ⟨hx, rfl, ht⟩ <;>
      rcases apply_insert hs' with ⟨y, rfl, hy, rfl⟩ | ⟨hy, rfl, ht'⟩ <;> simp_all
  | swap expected record =>
    cases hc
    rcases apply_swap hs with ⟨rfl, hx, rfl⟩ | ⟨x, rfl, hx, hv, rfl⟩ | ⟨x, hx, hv, rfl, ht⟩ <;>
      rcases apply_swap hs' with ⟨rfl, hy, rfl⟩ | ⟨y, rfl, hy, hw, rfl⟩ | ⟨y, hy, hw, rfl, ht'⟩ <;>
        simp_all
  | remove stream expected =>
    cases hc
    rcases apply_remove hs with ⟨rfl, hx, rfl⟩ | ⟨x, rfl, hx, hv, rfl⟩ | ⟨x, hx, hv, rfl, ht⟩ <;>
      rcases apply_remove hs' with
        ⟨rfl, hy, rfl⟩ | ⟨y, rfl, hy, hw, rfl⟩ | ⟨y, hy, hw, rfl, ht'⟩ <;> simp_all
  | setPhase stream phase =>
    cases hc
    rcases apply_setPhase hs with ⟨rfl, hx, rfl⟩ | ⟨x, hx, rfl, ht⟩ <;>
      rcases apply_setPhase hs' with ⟨rfl, hy, rfl⟩ | ⟨y, hy, rfl, ht'⟩ <;> simp_all

theorem apply_failing (c : StoreCall) (s : Store) : (apply c s).1.failing = s.failing := by
  cases c with
  | get id => rfl
  | list scope => rfl
  | insert record =>
    simp only [apply, insert]
    split <;> rfl
  | swap expected record =>
    simp only [apply, swap]
    split
    · rfl
    · split <;> rfl
  | remove id expected =>
    simp only [apply, remove]
    split
    · rfl
    · split <;> rfl
  | setPhase id phase =>
    simp only [apply, setPhase]
    split <;> rfl

end Store

end StreamControl
