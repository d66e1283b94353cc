import StreamControl.Json.Numeral
import StreamControl.Json.Reader
import StreamControl.Json.Writer
import Mathlib.Algebra.Ring.Nat

/-!
# Numerals read back

`readNumeral?_write`: a numeral whose digits follow the grammar is read back as it was written,
unless what stands behind it could be taken for a part of it. The numerals of natural numbers and of
doubles are such numerals, and the one of a natural number below `2^64` stands for that number.
-/

namespace StreamControl

namespace Json

/-- The digits are there, and no zero stands in front of others. -/
structure Numeral.WellFormed (n : Numeral) : Prop where
  whole : n.whole ≠ []
  leading : n.whole.head? = some 0 → n.whole.length = 1
  exponent : ∀ e, n.exponent = some e → e.digits ≠ []

/-- What stands behind a numeral is no part of it. -/
def EndsNumeral (rest : Bytes) : Prop :=
  ∀ b ∈ rest.head?, digit? b = none ∧ b ≠ 0x2E ∧ b ≠ 0x65 ∧ b ≠ 0x45

theorem endsNumeral_nil : EndsNumeral [] := fun _ h => nomatch h

/-! ## Digits -/

theorem digit?_write (d : Digit) : digit? (0x30 + d.val.toUInt8) = some d := by
  revert d
  decide

theorem readDigits_write (ds : List Digit) {rest : Bytes} (h : ∀ b ∈ rest.head?, digit? b = none) :
    readDigits (writeDigits ds ++ rest) = (ds, rest) := by
  induction ds with
  | nil =>
    cases rest with
    | nil => rfl
    | cons b rest =>
      show readDigits (b :: rest) = _
      rw [readDigits, h b rfl]
  | cons d ds ih =>
    show readDigits ((0x30 + d.val.toUInt8) :: (writeDigits ds ++ rest)) = _
    rw [readDigits, digit?_write, ih]

theorem readSomeDigits?_write {ds : List Digit} (hd : ds ≠ []) {rest : Bytes}
    (h : ∀ b ∈ rest.head?, digit? b = none) :
    readSomeDigits? (writeDigits ds ++ rest) = some (ds, rest) := by
  unfold readSomeDigits?
  rw [readDigits_write ds h]
  cases ds with
  | nil => contradiction
  | cons d ds => rfl

/-! ## Numerals -/

theorem readExponent?_none {rest : Bytes} (h : EndsNumeral rest) :
    readExponent? rest = some (none, rest) := by
  cases rest with
  | nil => rfl
  | cons b rest =>
    obtain ⟨-, -, h₁, h₂⟩ := h b rfl
    simp [readExponent?, h₁, h₂]

theorem readExponent?_write (e : Exponent) (hd : e.digits ≠ []) {rest : Bytes}
    (h : EndsNumeral rest) :
    readExponent? (e.write ++ rest) = some (some e, rest) := by
  have hs := readSomeDigits?_write hd fun b hb => (h b hb).1
  obtain ⟨negative, digits⟩ := e
  cases negative <;> simp [Exponent.write, readExponent?, readExponentDigits?, hs]

/-- The exponent as it is written, if there is one. -/
def writeExponent : Option Exponent → Bytes
  | none => []
  | some e => e.write

/-- The fraction and the exponent as they are written. -/
def Numeral.tail (n : Numeral) : Bytes :=
  (if n.fraction.isEmpty then [] else 0x2E :: writeDigits n.fraction) ++ writeExponent n.exponent

theorem Numeral.write_eq (n : Numeral) :
    n.write = (if n.negative then [0x2D] else []) ++ (writeDigits n.whole ++ n.tail) := by
  obtain ⟨negative, whole, fraction, exponent⟩ := n
  cases exponent <;> simp [Numeral.write, Numeral.tail, writeExponent]

theorem head?_exponent (e : Option Exponent) {rest : Bytes} (h : EndsNumeral rest) :
    ∀ b ∈ (writeExponent e ++ rest).head?, digit? b = none ∧ b ≠ 0x2E := by
  cases e with
  | none => exact fun b hb => ⟨(h b hb).1, (h b hb).2.1⟩
  | some e =>
    intro b hb
    cases hb
    decide

theorem readFraction?_write (n : Numeral) {rest : Bytes} (h : EndsNumeral rest) :
    readFraction? (n.tail ++ rest) = some (n.fraction, writeExponent n.exponent ++ rest) := by
  have hhead := head?_exponent n.exponent h
  unfold Numeral.tail
  cases hf : n.fraction with
  | nil =>
    rw [List.isEmpty_nil, if_pos rfl, List.nil_append]
    generalize writeExponent n.exponent ++ rest = behind at hhead
    cases behind with
    | nil => rfl
    | cons b behind =>
      have hpoint := (hhead b rfl).2
      unfold readFraction?
      split
      · simp_all
      · rfl
  | cons d ds =>
    simp only [List.isEmpty_cons, Bool.false_eq_true, ↓reduceIte, List.cons_append,
      List.append_assoc, readFraction?]
    exact readSomeDigits?_write (List.cons_ne_nil d ds) fun b hb => (hhead b hb).1

theorem head?_tail {n : Numeral} {rest : Bytes} (h : EndsNumeral rest) :
    ∀ b ∈ (n.tail ++ rest).head?, digit? b = none := by
  have hhead := head?_exponent n.exponent h
  unfold Numeral.tail
  cases n.fraction with
  | nil => exact fun b hb => (hhead b hb).1
  | cons d ds =>
    intro b hb
    cases hb
    decide

theorem readUnsigned?_write {n : Numeral} (hn : n.WellFormed) {rest : Bytes}
    (h : EndsNumeral rest) :
    readUnsigned? n.negative (writeDigits n.whole ++ (n.tail ++ rest)) = some (n, rest) := by
  have hw : readWhole? (writeDigits n.whole ++ (n.tail ++ rest)) =
      some (n.whole, n.tail ++ rest) := by
    have hlead : ¬(n.whole.head? = some (.ofNat 0) ∧ n.whole.length ≠ 1) :=
      fun ⟨h₁, h₂⟩ => h₂ (hn.leading h₁)
    simp [readWhole?, readSomeDigits?_write hn.whole (head?_tail h), hlead]
  have he : readExponent? (writeExponent n.exponent ++ rest) = some (n.exponent, rest) := by
    cases he : n.exponent with
    | none => exact readExponent?_none h
    | some e => exact readExponent?_write e (hn.exponent e he) h
  simp [readUnsigned?, hw, readFraction?_write n h, he]

theorem write_digit_ne (d : Digit) : (0x30 + d.val.toUInt8 : UInt8) ≠ 0x2D := by
  revert d
  decide

/-- A numeral that follows the grammar is read back. -/
theorem readNumeral?_write {n : Numeral} (hn : n.WellFormed) {rest : Bytes} (h : EndsNumeral rest) :
    readNumeral? (n.write ++ rest) = some (n, rest) := by
  have hu := readUnsigned?_write hn h
  rw [Numeral.write_eq, List.append_assoc, List.append_assoc]
  cases hneg : n.negative with
  | true =>
    rw [hneg] at hu
    exact hu
  | false =>
    rw [hneg] at hu
    obtain ⟨d, ds, hw⟩ := List.exists_cons_of_ne_nil hn.whole
    rw [hw] at hu ⊢
    rw [if_neg Bool.false_ne_true, List.nil_append]
    show readNumeral? ((0x30 + d.val.toUInt8) :: (writeDigits ds ++ (n.tail ++ rest))) = _
    unfold readNumeral?
    split
    · rename_i hd
      exact absurd (List.cons.inj hd).1 (write_digit_ne d)
    · exact hu

/-! ## Natural numbers -/

theorem digitsOf_small {n : Nat} (h : n < 10) : digitsOf n = [Digit.ofNat n] := by
  rw [digitsOf, if_pos h]

theorem digitsOf_large {n : Nat} (h : 10 ≤ n) :
    digitsOf n = digitsOf (n / 10) ++ [Digit.ofNat n] := by
  rw [digitsOf, if_neg (by omega)]

theorem digitsOf_ne_nil (n : Nat) : digitsOf n ≠ [] := by
  rw [digitsOf]
  split
  · exact List.cons_ne_nil _ _
  · simp

theorem natOf_digitsOf (n : Nat) : natOf (digitsOf n) = n := by
  induction n using Nat.strongRecOn with
  | ind n ih =>
    by_cases h : n < 10
    · rw [digitsOf_small h]
      simp [natOf, Digit.ofNat]
      omega
    · rw [digitsOf_large (by omega), natOf, List.foldl_append]
      have := ih (n / 10) (by omega)
      rw [natOf] at this
      rw [this]
      simp [Digit.ofNat]
      omega

theorem head?_digitsOf {n : Nat} (h : 0 < n) : (digitsOf n).head? ≠ some 0 := by
  induction n using Nat.strongRecOn with
  | ind n ih =>
    by_cases hn : n < 10
    · rw [digitsOf_small hn]
      simp only [List.head?_cons, ne_eq, Option.some.injEq]
      intro he
      have := congrArg Fin.val he
      simp [Digit.ofNat] at this
      omega
    · obtain ⟨d, ds, hd⟩ := List.exists_cons_of_ne_nil (digitsOf_ne_nil (n / 10))
      have hhead := ih (n / 10) (by omega) (by omega)
      rw [hd] at hhead
      rw [digitsOf_large (by omega), hd]
      exact hhead

theorem wellFormed_ofNat (n : Nat) : (Numeral.ofNat n).WellFormed := by
  refine ⟨digitsOf_ne_nil n, fun h => ?_, fun _ h => nomatch h⟩
  rcases Nat.eq_zero_or_pos n with rfl | hpos
  · rw [Numeral.ofNat, digitsOf_small (by decide)]
    rfl
  · exact absurd h (head?_digitsOf hpos)

theorem value?_ofNat {n : Nat} (h : n < 2 ^ 64) : (Numeral.ofNat n).value? = some (.natural n) := by
  have hle : n ≤ maxNatural := Nat.le_pred_of_lt h
  simp [Numeral.value?, Numeral.ofNat, Numeral.isWhole, natOf_digitsOf, hle]

/-! ## Doubles -/

/-- The digit that a character stands for. -/
def digitOfChar (c : Char) : Digit := Digit.ofNat (c.toNat - '0'.toNat)

theorem digitOfChar_digitChar {n : Nat} (h : n < 10) : digitOfChar n.digitChar = Digit.ofNat n := by
  have hall : ∀ d : Fin 10, digitOfChar d.val.digitChar = Digit.ofNat d.val := by decide
  exact hall ⟨n, h⟩

theorem map_toDigits (n : Nat) : (Nat.toDigits 10 n).map digitOfChar = digitsOf n := by
  induction n using Nat.strongRecOn with
  | ind n ih =>
    by_cases h : n < 10
    · rw [Nat.toDigits_of_lt_base h, digitsOf_small h, List.map_singleton, digitOfChar_digitChar h]
    · rw [Nat.toDigits_of_base_le (by decide) (by omega), digitsOf_large (by omega),
        List.map_append, ih (n / 10) (by omega), List.map_singleton,
        digitOfChar_digitChar (Nat.mod_lt n (by decide))]
      simp [Digit.ofNat]

theorem head?_take {α : Type} {xs : List α} {k : Nat} (h : 0 < k) :
    (xs.take k).head? = xs.head? := by
  cases xs with
  | nil => rw [List.take_nil]
  | cons x xs =>
    obtain ⟨k, rfl⟩ := Nat.exists_eq_succ_of_ne_zero (Nat.ne_of_gt h)
    rfl

/-- In front of the point there is a lone zero, or a first digit that is none. -/
theorem split_whole (d : Decimal) :
    d.split.1 = ['0'] ∨ d.split.1 ≠ [] ∧ (d.split.1.map digitOfChar).head? ≠ some 0 := by
  unfold Decimal.split
  by_cases he : 0 ≤ d.exponent
  · by_cases hz : d.digits = 0
    · exact .inl (by simp [he, hz])
    · refine .inr ?_
      obtain ⟨c, cs, hc⟩ := List.exists_cons_of_ne_nil (digitsOf_ne_nil d.digits)
      have hhead := head?_digitsOf (Nat.pos_of_ne_zero hz)
      simp only [he, hz, ↓reduceIte, List.map_append, Decimal.digitsOf, map_toDigits]
      rw [hc] at hhead ⊢
      exact ⟨List.append_ne_nil_of_left_ne_nil Nat.toDigits_ne_nil _, hhead⟩
  · simp only [he, ↓reduceIte]
    split
    · rename_i hlt
      have hz : d.digits ≠ 0 := by
        intro hz
        rw [hz, Decimal.digitsOf, Nat.toDigits_zero, List.length_singleton] at hlt
        omega
      have hpos : 0 < (Decimal.digitsOf d.digits).length - (-d.exponent).toNat := by omega
      refine .inr ⟨?_, ?_⟩
      · exact List.ne_nil_of_length_pos (by rw [List.length_take]; omega)
      · rw [List.map_take, head?_take hpos, Decimal.digitsOf, map_toDigits]
        exact head?_digitsOf (Nat.pos_of_ne_zero hz)
    · exact .inl rfl

theorem wellFormed_ofDecimal (d : Decimal) : (Numeral.ofDecimal d).WellFormed := by
  unfold Numeral.ofDecimal
  by_cases hp : d.isPositional = true
  · simp only [hp, ↓reduceIte]
    refine ⟨?_, fun h => ?_, fun _ h => nomatch h⟩
    · rcases split_whole d with h | ⟨h, -⟩ <;> simp [h]
    · rcases split_whole d with hw | ⟨-, hw⟩
      · simp [hw]
      · exact absurd h hw
  · simp only [hp]
    refine ⟨?_, fun h => ?_, fun e he => ?_⟩
    · simp [Decimal.digitsOf, Nat.toDigits_ne_nil]
    · have hlen := Nat.length_toDigits_pos (b := 10) (n := d.digits)
      simp only [Bool.false_eq_true, ↓reduceIte, List.length_take, List.length_map,
        Decimal.digitsOf]
      omega
    · cases he
      exact digitsOf_ne_nil _

theorem wellFormed_ofFloat? {x : Float} {n : Numeral} (h : Numeral.ofFloat? x = some n) :
    n.WellFormed := by
  unfold Numeral.ofFloat? at h
  split at h
  · cases h
    exact wellFormed_ofDecimal _
  · cases h

end Json

end StreamControl
