import StreamControl.Timestamp
import Mathlib.Algebra.Ring.Nat

/-!
# Timestamps read back

`Timestamp.ofString?_toString`: the stored text of a valid timestamp is read back as that timestamp.
Each part of the text is taken off its front by its own reader, `readYear?_yearText`,
`readField?_padded` and `readFraction?_fractionText`; the offset `Z` moves nothing.
-/

namespace StreamControl

namespace Timestamp

/-! ## Digits -/

theorem isBlank_digit {c : Char} (h : c.isDigit = true) : isBlank c = false := by
  have h₁ : 48 ≤ c.toNat := (Char.isDigit_iff_toNat.mp h).1
  have h₂ : c.toNat ≤ 57 := (Char.isDigit_iff_toNat.mp h).2
  simp only [isBlank, Bool.or_eq_false_iff, Bool.and_eq_false_iff, decide_eq_false_iff_not]
  omega

theorem isDigit_padded (width n : Nat) : ∀ c ∈ padded width n, c.isDigit = true := by
  intro c hc
  rcases List.mem_append.mp hc with hc | hc
  · rw [List.eq_of_mem_replicate hc]
    rfl
  · exact Nat.isDigit_of_mem_toDigits (by decide) (by decide) hc

theorem length_padded {width n : Nat} (hw : 0 < width) (hn : n < 10 ^ width) :
    (padded width n).length = width := by
  have hlen : (Nat.toDigits 10 n).length ≤ width :=
    (Nat.length_toDigits_le_iff (by decide) hw).mpr hn
  rw [padded, List.length_append, List.length_replicate]
  omega

theorem padded_ne_nil (width n : Nat) : padded width n ≠ [] :=
  List.append_ne_nil_of_right_ne_nil _ Nat.toDigits_ne_nil

theorem number_padded (width n : Nat) : number (padded width n) = n := by
  show Nat.ofDigitChars 10 (List.replicate _ '0' ++ Nat.toDigits 10 n) 0 = n
  rw [Nat.ofDigitChars_append, Nat.ofDigitChars_replicate_zero, Nat.mul_zero,
    Nat.ofDigitChars_ten_toDigits]

/-! ## The readers of the parts -/

theorem takeWhile_digits {ds rest : List Char} (hd : ∀ c ∈ ds, c.isDigit = true)
    (hr : ∀ c ∈ rest.head?, c.isDigit = false) :
    (ds ++ rest).takeWhile Char.isDigit = ds := by
  rw [List.takeWhile_append_of_pos hd]
  cases rest with
  | nil => simp
  | cons c rest => rw [List.takeWhile_cons_of_neg (by rw [hr c rfl]; decide), List.append_nil]

/-- The digits at the front of as many characters as are looked at. -/
theorem takeWhile_take {most : Nat} {ds rest : List Char} (hd : ∀ c ∈ ds, c.isDigit = true)
    (hlen : ds.length ≤ most) (hr : ds.length = most ∨ ∀ c ∈ rest.head?, c.isDigit = false) :
    ((ds ++ rest).take most).takeWhile Char.isDigit = ds := by
  rw [List.take_append, List.take_of_length_le hlen]
  refine takeWhile_digits hd fun c hc => ?_
  rw [List.head?_take] at hc
  split at hc
  · cases hc
  · rcases hr with h | h
    · omega
    · exact h c hc

/-- A number ends where it has as many digits as it may have, or where no digit follows. -/
theorem readNumber?_digits {most : Nat} {ds rest : List Char} (hd : ∀ c ∈ ds, c.isDigit = true)
    (hne : ds ≠ []) (hlen : ds.length ≤ most)
    (hr : ds.length = most ∨ ∀ c ∈ rest.head?, c.isDigit = false) :
    readNumber? most (ds ++ rest) = some (number ds, rest) := by
  have htaken := takeWhile_take hd hlen hr
  have hfull : ds.isEmpty = false := List.isEmpty_eq_false_iff.mpr hne
  simp only [readNumber?, htaken, hfull, Bool.false_eq_true, ↓reduceIte, List.drop_left]

theorem skipBlanks_cons {c : Char} {cs : List Char} (h : isBlank c = false) :
    skipBlanks (c :: cs) = c :: cs :=
  List.dropWhile_cons_of_neg (by rw [h]; decide)

theorem skipBlanks_digits {ds rest : List Char} (hd : ∀ c ∈ ds, c.isDigit = true) (hne : ds ≠ []) :
    skipBlanks (ds ++ rest) = ds ++ rest := by
  obtain ⟨c, cs, rfl⟩ := List.exists_cons_of_ne_nil hne
  exact skipBlanks_cons (isBlank_digit (hd c List.mem_cons_self))

/-- A field of two digits. -/
theorem readField?_padded {n : Nat} (hn : n < 100) (rest : List Char) :
    readField? 2 (padded 2 n ++ rest) = some (n, rest) := by
  have hlen : (padded 2 n).length = 2 := length_padded (by decide) hn
  rw [readField?, skipBlanks_digits (isDigit_padded 2 n) (padded_ne_nil 2 n),
    readNumber?_digits (isDigit_padded 2 n) (padded_ne_nil 2 n) (by omega) (.inl hlen),
    number_padded]

theorem readMark?_cons (mark : Char) (h : isBlank mark = false) (rest : List Char) :
    readMark? mark (mark :: rest) = some rest := by
  rw [readMark?, skipBlanks_cons h]
  exact if_pos rfl

theorem readYear?_digits {ds rest : List Char} (hd : ∀ c ∈ ds, c.isDigit = true) (hne : ds ≠ []) :
    readYear? (ds ++ rest) = (fun (n, r) => ((n : Int), r)) <$> readNumber? 4 (ds ++ rest) := by
  have hskip : skipBlanks (ds ++ rest) = ds ++ rest := skipBlanks_digits hd hne
  obtain ⟨c, cs, rfl⟩ := List.exists_cons_of_ne_nil hne
  have hc : c.isDigit = true := hd c List.mem_cons_self
  rw [readYear?, hskip]
  split
  case h_1 he | h_2 he =>
    cases he
    cases hc
  case h_3 => rfl

theorem readYear?_yearText (year : Int) (rest : List Char) :
    readYear? (yearText year ++ '-' :: rest) = some (year, '-' :: rest) := by
  have hdigits := isDigit_padded 4
  have hne := padded_ne_nil 4
  unfold yearText
  by_cases hy : 0 ≤ year ∧ year ≤ 9999
  · have hlen : (padded 4 year.toNat).length = 4 := length_padded (by decide) (by omega)
    rw [if_pos hy, readYear?_digits (hdigits _) (hne _),
      readNumber?_digits (hdigits _) (hne _) (by omega) (.inl hlen), number_padded]
    show some ((year.toNat : Int), _) = _
    rw [Int.toNat_of_nonneg hy.1]
  · have hmark : ∀ c ∈ ('-' :: rest).head?, c.isDigit = false := by
      rintro c ⟨⟩
      rfl
    have hread :
        readNumber? (padded 4 year.natAbs ++ '-' :: rest).length
        (padded 4 year.natAbs ++ '-' :: rest) =
          some (number (padded 4 year.natAbs), '-' :: rest) :=
      readNumber?_digits (hdigits _) (hne _) (by rw [List.length_append]; omega) (.inr hmark)
    rw [number_padded] at hread
    rw [if_neg hy]
    by_cases hs : year < 0
    · rw [if_pos hs, readYear?, List.cons_append, skipBlanks_cons rfl]
      simp only [hread]
      show some (-(year.natAbs : Int), _) = _
      rw [← Int.eq_neg_natAbs_of_nonpos (by omega)]
    · rw [if_neg hs, readYear?, List.cons_append, skipBlanks_cons rfl]
      simp only [hread]
      show some ((year.natAbs : Int), _) = _
      rw [Int.natAbs_of_nonneg (by omega)]

/-- A fraction in a number of digits that holds all of it. -/
theorem readFraction?_padded {k m : Nat} (hk : 0 < k ∧ k ≤ 9) (hm : m < 10 ^ k) {rest : List Char}
    (hr : ∀ c ∈ rest.head?, c.isDigit = false) :
    readFraction? ('.' :: padded k m ++ rest) = some (m * 10 ^ (9 - k), rest) := by
  have hlen : (padded k m).length = k := length_padded hk.1 hm
  have hfull : (padded k m).isEmpty = false := List.isEmpty_eq_false_iff.mpr (padded_ne_nil k m)
  have htaken : ((padded k m ++ rest).take 9).takeWhile Char.isDigit = padded k m :=
    takeWhile_take (isDigit_padded k m) (by omega) (.inr hr)
  have hrest : rest.dropWhile Char.isDigit = rest := by
    cases rest with
    | nil => rfl
    | cons c rest => exact List.dropWhile_cons_of_neg (by rw [hr c rfl]; decide)
  show readFraction? ('.' :: (padded k m ++ rest)) = _
  simp only [readFraction?, htaken, hfull, Bool.false_eq_true, ↓reduceIte, number_padded, hlen,
    List.drop_left' hlen, hrest, Nat.pow_eq]

theorem readFraction?_fractionText {nanos : Nat} (hn : nanos < 1000000000) {rest : List Char}
    (hr : ∀ c ∈ rest.head?, c.isDigit = false ∧ c ≠ '.') :
    readFraction? (fractionText nanos ++ rest) = some (nanos, rest) := by
  have hdigit : ∀ c ∈ rest.head?, c.isDigit = false := fun c hc => (hr c hc).1
  unfold fractionText
  split
  · subst nanos
    cases rest with
    | nil => rfl
    | cons c rest =>
      have hc : c ≠ '.' := (hr c rfl).2
      show readFraction? (c :: rest) = _
      unfold readFraction?
      split
      · rename_i he
        cases he
        contradiction
      · rfl
  · split
    · rw [readFraction?_padded ⟨by decide, by decide⟩ (by omega) hdigit]
      simp only [Nat.reduceSub, Nat.reducePow, Option.some.injEq, Prod.mk.injEq, and_true]
      omega
    · split
      · rw [readFraction?_padded ⟨by decide, by decide⟩ (by omega) hdigit]
        simp only [Nat.reduceSub, Nat.reducePow, Option.some.injEq, Prod.mk.injEq, and_true]
        omega
      · rw [readFraction?_padded ⟨by decide, by decide⟩ (by omega) hdigit]
        simp only [Nat.reduceSub, Nat.reducePow, Nat.mul_one]

/-! ## Whole timestamps -/

theorem ahead_zero {t : Timestamp} (h : t.Valid) : t.ahead 0 = t := by
  have hhour := h.hour
  have hminute := h.minute
  have htotal : ((t.hour * 60 + t.minute : Int) - 0) = ((t.hour * 60 + t.minute : Nat) : Int) := by
    omega
  have hday : (((t.hour * 60 + t.minute : Nat) : Int) % 1440).toNat = t.hour * 60 + t.minute := by
    omega
  have h₁ : (t.hour * 60 + t.minute) / 60 = t.hour := by omega
  have h₂ : (t.hour * 60 + t.minute) % 60 = t.minute := by omega
  simp only [ahead, htotal, hday, h₁, h₂]
  rw [if_neg (by omega), if_neg (by omega)]

theorem ofString?_toString {t : Timestamp} (h : t.Valid) : ofString? t.toString = some t := by
  have hmonth := h.month
  have hday := h.day
  have hdays : daysIn t.year t.month ≤ 31 := by
    unfold daysIn
    split <;> try split
    all_goals omega
  have hhour := h.hour
  have hminute := h.minute
  have hsecond := h.second
  have hnanos := h.nanos
  have hfraction : readFraction? (fractionText t.nanos ++ ['Z']) = some (t.nanos, ['Z']) :=
    readFraction?_fractionText hnanos (by rintro c ⟨⟩; decide)
  have hoffset : readOffset? ['Z'] = some (0, []) := by decide
  have hchars : t.localChars ++ ['Z'] =
    yearText t.year ++ '-' :: (padded 2 t.month ++ '-' :: (padded 2 t.day ++ 'T' ::
      (padded 2 t.hour ++ ':' ::
        (padded 2 t.minute ++ ':' ::
          (padded 2 t.second ++ (fractionText t.nanos ++ ['Z'])))))) := by
    simp only [localChars, List.append_assoc, List.cons_append]
  rw [ofString?, toString, String.toList_ofList, hchars, ofChars?]
  refine Option.bind_eq_some_iff.mpr ⟨_, readYear?_yearText t.year _, ?_⟩
  refine Option.bind_eq_some_iff.mpr ⟨_, readMark?_cons '-' rfl _, ?_⟩
  refine Option.bind_eq_some_iff.mpr ⟨_, readField?_padded (by omega) _, ?_⟩
  refine Option.bind_eq_some_iff.mpr ⟨_, readMark?_cons '-' rfl _, ?_⟩
  refine Option.bind_eq_some_iff.mpr ⟨_, readField?_padded (by omega) _, ?_⟩
  refine Option.bind_eq_some_iff.mpr ⟨_, rfl, ?_⟩
  refine Option.bind_eq_some_iff.mpr ⟨_, readField?_padded (by omega) _, ?_⟩
  refine Option.bind_eq_some_iff.mpr ⟨_, readMark?_cons ':' rfl _, ?_⟩
  refine Option.bind_eq_some_iff.mpr ⟨_, readField?_padded (by omega) _, ?_⟩
  refine Option.bind_eq_some_iff.mpr ⟨_, readMark?_cons ':' rfl _, ?_⟩
  refine Option.bind_eq_some_iff.mpr ⟨_, readField?_padded (by omega) _, ?_⟩
  refine Option.bind_eq_some_iff.mpr ⟨_, hfraction, ?_⟩
  refine Option.bind_eq_some_iff.mpr ⟨_, hoffset, ?_⟩
  show (if _ ∧ t.Valid ∧ (t.ahead 0).Valid ∧ _ then some (t.ahead 0) else none) = some t
  rw [ahead_zero h, if_pos ⟨rfl, h, h, by decide⟩]

end Timestamp

end StreamControl
