import StreamControl.Proofs.Json.Numeral
import StreamControl.Proofs.Json.Text

/-!
# Values read back

A value is canonical if its numerals follow the grammar and its texts are spelled from texts. What
is written of a canonical value is read back as that value (`parse?_write`). The proof follows the
writer: a value is read back in front of anything that ends a numeral (`readValue?_write`), and a
list of items or members up to its closing bracket. The fuel is the number of bytes.
-/

namespace StreamControl

namespace Json

mutual

def Canonical : Json → Prop
  | .null | .bool _ => True
  | .number n => n.WellFormed
  | .text pieces => ∃ s, pieces = piecesOf s
  | .array items => CanonicalItems items
  | .object members => CanonicalMembers members

def CanonicalItems : List Json → Prop
  | [] => True
  | v :: rest => v.Canonical ∧ CanonicalItems rest

def CanonicalMembers : List (List Piece × Json) → Prop
  | [] => True
  | (name, v) :: rest => (∃ s, name = piecesOf s) ∧ v.Canonical ∧ CanonicalMembers rest

end

theorem isPlain_piecesOf (s : String) : ∀ p ∈ piecesOf s, p.IsPlain := by
  intro p hp
  obtain ⟨b, -, rfl⟩ := List.mem_map.mp hp
  exact isPlain_ofByte b

theorem readPieces?_writeText (s : String) (rest : Bytes) :
    readPieces? ((piecesOf s).flatMap Piece.write ++ 0x22 :: rest) = some (piecesOf s, rest) :=
  readPieces?_write (isPlain_piecesOf s) rest

/-! ## First bytes -/

theorem skipBlanks_cons {b : UInt8} (h : isBlank b = false) (bytes : Bytes) :
    skipBlanks (b :: bytes) = b :: bytes := by
  simp [skipBlanks, h]

theorem endsNumeral_cons {b : UInt8} (h : b = 0x2C ∨ b = 0x5D ∨ b = 0x7D) (bytes : Bytes) :
    EndsNumeral (b :: bytes) := by
  intro c hc
  cases hc
  rcases h with rfl | rfl | rfl <;> decide

/-- A numeral begins with a digit or a minus. -/
theorem exists_write_numeral {n : Numeral} (h : n.WellFormed) :
    ∃ b bytes, n.write = b :: bytes ∧ isBlank b = false ∧ b ≠ 0x22 ∧ b ≠ 0x5B ∧ b ≠ 0x5D ∧
      b ≠ 0x7B ∧ b ≠ 0x6E ∧
      b ≠ 0x74 ∧ b ≠ 0x66 := by
  rw [Numeral.write_eq]
  cases n.negative with
  | true => exact ⟨0x2D, _, rfl, by decide⟩
  | false =>
    obtain ⟨d, ds, hw⟩ := List.exists_cons_of_ne_nil h.whole
    rw [hw]
    refine ⟨0x30 + d.val.toUInt8, _, rfl, ?_⟩
    clear hw
    revert d
    decide

/-- What is written of a value begins with no blank, and with no closing bracket. -/
theorem exists_write {v : Json} (h : v.Canonical) :
    ∃ b bytes, v.write = b :: bytes ∧ isBlank b = false ∧ b ≠ 0x5D := by
  cases v with
  | null => exact ⟨0x6E, _, rfl, by decide⟩
  | bool b => cases b <;> exact ⟨_, _, rfl, by decide⟩
  | number n =>
    obtain ⟨b, bytes, hw, hb, -, -, hc, -⟩ := exists_write_numeral h
    exact ⟨b, bytes, hw, hb, hc⟩
  | text pieces => exact ⟨0x22, _, rfl, by decide⟩
  | array items => cases items <;> exact ⟨0x5B, _, by rw [write], by decide⟩
  | object members => cases members <;> exact ⟨0x7B, _, by rw [write], by decide⟩

theorem exists_writeItems (items : List Json) :
    ∃ b bytes, writeItems items = b :: bytes ∧ (b = 0x2C ∨ b = 0x5D ∨ b = 0x7D) := by
  cases items <;> exact ⟨_, _, by rw [writeItems], by decide⟩

theorem exists_writeMembers (members : List (List Piece × Json)) :
    ∃ b bytes, writeMembers members = b :: bytes ∧ (b = 0x2C ∨ b = 0x5D ∨ b = 0x7D) := by
  cases members <;> exact ⟨_, _, by rw [writeMembers], by decide⟩

/-! ## Reading back -/

theorem readValue?_numeral {n : Numeral} (h : n.WellFormed) {rest : Bytes} (hr : EndsNumeral rest)
    (fuel : Nat) :
    readValue? (fuel + 1) (n.write ++ rest) = some (.number n, rest) := by
  obtain ⟨b, bytes, hw, -, h₁, h₂, -, h₃, h₄, h₅, h₆⟩ := exists_write_numeral h
  have hread := readNumeral?_write h hr
  rw [hw] at hread ⊢
  rw [List.cons_append] at hread ⊢
  rw [readValue?, hread]
  · rfl
  all_goals simp_all

mutual

theorem readValue?_write :
    ∀ (v : Json) (fuel : Nat) (rest : Bytes), v.Canonical → v.write.length ≤ fuel →
    EndsNumeral rest → readValue? fuel (v.write ++ rest) = some (v, rest)
  | v, 0, rest, hv, hf, _ => by
    obtain ⟨b, bytes, hw, -⟩ := exists_write hv
    rw [hw] at hf
    cases hf
  | .null, fuel + 1, rest, _, _, _ => rfl
  | .bool true, fuel + 1, rest, _, _, _ => rfl
  | .bool false, fuel + 1, rest, _, _, _ => rfl
  | .number n, fuel + 1, rest, hv, _, hr => readValue?_numeral hv hr fuel
  | .text pieces, fuel + 1, rest, hv, _, _ => by
    obtain ⟨s, rfl⟩ := hv
    show readValue? (fuel + 1) (0x22 :: (_ ++ [0x22] ++ rest)) = _
    rw [readValue?, List.append_assoc, List.singleton_append, readPieces?_writeText]
    rfl
  | .array [], fuel + 1, rest, _, _, _ => rfl
  | .array (v :: items), fuel + 1, rest, hv, hf, _ => by
    have hitems := readItems?_write (v :: items) fuel rest (List.cons_ne_nil v items) hv (by
      simpa [write, writeItems] using hf)
    obtain ⟨b, bytes, hw, hb, hc⟩ := exists_write hv.1
    rw [writeItems, List.tail_cons] at hitems
    rw [write, List.cons_append, readValue?]
    rw [hw] at hitems ⊢
    simp only [List.cons_append] at hitems ⊢
    rw [skipBlanks_cons hb]
    split
    · rename_i heq
      exact absurd (List.cons.inj heq).1 hc
    · rw [hitems]
      rfl
  | .object [], fuel + 1, rest, _, _, _ => rfl
  | .object ((name, v) :: members), fuel + 1, rest, hv, hf, _ => by
    have hmembers :=
      readMembers?_write ((name, v) :: members) fuel rest (List.cons_ne_nil _ members) hv
        (by simpa [write, writeMembers] using hf)
    rw [writeMembers, List.tail_cons] at hmembers
    rw [write, List.cons_append, readValue?]
    simp only [writeText, List.cons_append] at hmembers ⊢
    rw [skipBlanks_cons (by decide)]
    split
    · rename_i heq
      exact absurd (List.cons.inj heq).1 (by decide)
    · rw [hmembers]
      rfl

/-- Items are read back up to the closing bracket. -/
theorem readItems?_write :
    ∀ (items : List Json) (fuel : Nat) (rest : Bytes), items ≠ [] → CanonicalItems items →
    (writeItems items).length ≤ fuel + 1 →
      readItems? fuel ((writeItems items).tail ++ rest) = some (items, rest)
  | [], _, _, h, _, _ => absurd rfl h
  | v :: items, 0, rest, _, hv, hf => by
    obtain ⟨b, bytes, hw, -⟩ := exists_write hv.1
    simp [writeItems, hw] at hf
  | v :: items, fuel + 1, rest, _, hv, hf => by
    obtain ⟨b, bytes, hw, hb⟩ := exists_writeItems items
    have hlen : v.write.length + (writeItems items).length ≤ fuel + 1 := by
      simpa [writeItems] using hf
    have hvalue := readValue?_write v fuel (writeItems items ++ rest) hv.1
      (by rw [hw, List.length_cons] at hlen; omega)
      (by
        rw [hw]
        exact endsNumeral_cons hb _)
    rw [writeItems, List.tail_cons, List.append_assoc, readItems?, hvalue]
    cases items with
    | nil => rfl
    | cons v' items =>
      have hitems := readItems?_write (v' :: items) fuel rest (List.cons_ne_nil v' items) hv.2 (by
        obtain ⟨c, bytes', hw', -⟩ := exists_write hv.1
        rw [hw', List.length_cons] at hlen
        omega)
      obtain ⟨c, bytes', hw', hc, -⟩ := exists_write hv.2.1
      rw [writeItems, List.tail_cons, hw'] at hitems
      rw [writeItems, hw']
      simp only [List.cons_append] at hitems ⊢
      show (do
        let (items, behind) ← readItems? fuel
          (skipBlanks (c :: (bytes' ++ writeItems items ++ rest)))
        some (v :: items, behind)) = _
      rw [skipBlanks_cons hc, hitems]
      rfl

/-- Members are read back up to the closing brace. -/
theorem readMembers?_write :
    ∀ (members : List (List Piece × Json)) (fuel : Nat) (rest : Bytes), members ≠ [] →
    CanonicalMembers members → (writeMembers members).length ≤ fuel + 1 →
    readMembers? fuel ((writeMembers members).tail ++ rest) = some (members, rest)
  | [], _, _, h, _, _ => absurd rfl h
  | (name, v) :: members, 0, rest, _, hv, hf => by
    simp [writeMembers, writeText] at hf
  | (name, v) :: members, fuel + 1, rest, _, hv, hf => by
    obtain ⟨⟨s, rfl⟩, hv, hvs⟩ := hv
    obtain ⟨b, bytes, hw, hb⟩ := exists_writeMembers members
    obtain ⟨c, bytes', hw', hc, -⟩ := exists_write hv
    have hlen : (writeText (piecesOf s)).length + v.write.length + (writeMembers members).length ≤
        fuel := by
      simp only [writeMembers, List.length_cons, List.length_append] at hf ⊢
      omega
    have hvalue := readValue?_write v fuel (writeMembers members ++ rest) hv (by omega) (by
      rw [hw]
      exact endsNumeral_cons hb _)
    rw [writeMembers, List.tail_cons, writeText]
    simp only [List.cons_append, List.append_assoc, List.nil_append]
    rw [readMembers?, readPieces?_writeText]
    show (do
      let (v, rest) ← readValue? fuel (skipBlanks (v.write ++ (writeMembers members ++ rest)))
      match skipBlanks rest with
      | 0x7D :: behind => some ([(piecesOf s, v)], behind)
      | 0x2C :: rest => do
        let (members, behind) ← readMembers? fuel (skipBlanks rest)
        some ((piecesOf s, v) :: members, behind)
      | _ => none) = _
    rw [hw', List.cons_append, skipBlanks_cons hc, ← List.cons_append, ← hw', hvalue]
    cases members with
    | nil => rfl
    | cons member members =>
      have hmembers := readMembers?_write (member :: members) fuel rest
        (List.cons_ne_nil member members) hvs (by omega)
      obtain ⟨name, v'⟩ := member
      rw [writeMembers, List.tail_cons] at hmembers
      show (do
        let (members, behind) ← readMembers? fuel
          (skipBlanks (writeText name ++ 0x3A :: (v'.write ++ writeMembers members) ++ rest))
        some ((piecesOf s, v) :: members, behind)) = _
      rw [writeText, List.cons_append, List.cons_append] at hmembers ⊢
      rw [skipBlanks_cons (by decide), hmembers]
      rfl

end

/-- What was written of a canonical value is read back as that value. -/
theorem parse?_write {v : Json} (h : v.Canonical) : parse? v.write = some v := by
  obtain ⟨b, bytes, hw, hb, -⟩ := exists_write h
  have hread := readValue?_write v (v.write.length + 1) [] h (Nat.le_succ _) endsNumeral_nil
  rw [List.append_nil] at hread
  rw [parse?]
  have hskip : skipBlanks v.write = v.write := by rw [hw, skipBlanks_cons hb]
  rw [hskip, hread]
  rfl

end Json

end StreamControl
