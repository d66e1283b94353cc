import StreamControl.Proofs.Json.RoundTrip

/-!
# Values on a line

What is written of a canonical value is text without a line end (`isLine_write`), so that a file can
hold one value to a line. Characters beyond ASCII are written as they are; of the others those that
would end a line are escaped.
-/

namespace StreamControl

namespace Json

/-- Bytes of a text without a line end. -/
structure IsLine (bytes : Bytes) : Prop where
  text : IsText bytes
  unbroken : (10 : UInt8) ∉ bytes

theorem IsLine.append {bytes bytes' : Bytes} (h : IsLine bytes) (h' : IsLine bytes') :
    IsLine (bytes ++ bytes') :=
  ⟨h.text.append h'.text, fun hm => (List.mem_append.mp hm).elim h.unbroken h'.unbroken⟩

/-- An ASCII byte that does not end a line. -/
def isInLine (b : UInt8) : Bool := decide (b < 0x80) && b != 10

theorem isLine_ascii {bytes : Bytes} (h : bytes.all isInLine = true) : IsLine bytes := by
  have hin : ∀ b ∈ bytes, b < 0x80 ∧ (b != 10) = true := by
    intro b hb
    have hb : isInLine b = true := List.all_eq_true.mp h b hb
    rwa [isInLine, Bool.and_eq_true, decide_eq_true_eq] at hb
  refine ⟨isText_ascii fun b hb => (hin b hb).1, fun hm => ?_⟩
  have hend := (hin 10 hm).2
  contradiction

theorem IsLine.cons {b : UInt8} {bytes : Bytes} (hb : isInLine b = true) (h : IsLine bytes) :
    IsLine (b :: bytes) := by
  have hone : IsLine [b] := isLine_ascii (by rw [List.all_cons, hb]; rfl)
  exact hone.append h

theorem IsLine.flatMap {α : Type} {f : α → Bytes} {xs : List α} (h : ∀ x ∈ xs, IsLine (f x)) :
    IsLine (xs.flatMap f) :=
  ⟨IsText.flatMap fun x hx => (h x hx).text, fun hm => by
    obtain ⟨x, hx, hb⟩ := List.mem_flatMap.mp hm
    exact (h x hx).unbroken hb⟩

/-! ## Texts -/

/-- An ASCII byte is written in ASCII bytes none of which ends a line. -/
theorem isLine_ofByte {b : UInt8} (h : b < 0x80) : IsLine (Piece.ofByte b).write := by
  have hall : ∀ n : Fin 128, (Piece.ofByte (UInt8.ofNat n.val)).write.all isInLine = true := by
    decide
  have hb := hall ⟨b.toNat, h⟩
  rw [UInt8.ofNat_toNat] at hb
  exact isLine_ascii hb

/-- Any other byte is written as it is. -/
theorem write_ofByte_large {b : UInt8} (h : 0x80 ≤ b) : (Piece.ofByte b).write = [b] := by
  have hall : ∀ n : Fin 128, (Piece.ofByte (UInt8.ofNat (128 + n.val))).write =
    [UInt8.ofNat (128 + n.val)] := by decide
  have hge : 128 ≤ b.toNat := h
  have hb := hall ⟨b.toNat - 128, by have := b.toNat_lt; omega⟩
  rwa [show 128 + (b.toNat - 128) = b.toNat by omega, UInt8.ofNat_toNat] at hb

theorem utf8EncodeChar_ascii {c : Char} (hc : c.toNat < 0x80) :
    String.utf8EncodeChar c = [UInt8.ofNat c.toNat] := by
  unfold String.utf8EncodeChar
  exact if_pos (Nat.le_of_lt_succ hc)

/-- The bytes of a character beyond ASCII are all beyond ASCII. -/
theorem large_of_mem_utf8EncodeChar {c : Char} (hc : 0x80 ≤ c.toNat) {b : UInt8}
    (hb : b ∈ String.utf8EncodeChar c) :
    0x80 ≤ b := by
  have hlarge : ∀ n : Nat, 0x80 ≤ n → n < 0x100 → (0x80 : UInt8) ≤ UInt8.ofNat n := by
    intro n h₁ h₂
    show 128 ≤ (UInt8.ofNat n).toNat
    rw [UInt8.toNat_ofNat']
    omega
  unfold String.utf8EncodeChar at hb
  rw [if_neg (by show ¬c.toNat ≤ 0x7f; omega)] at hb
  split at hb
  · simp only [List.mem_cons, List.not_mem_nil, or_false] at hb
    rcases hb with rfl | rfl <;> exact hlarge _ (by omega) (by omega)
  split at hb
  · simp only [List.mem_cons, List.not_mem_nil, or_false] at hb
    rcases hb with rfl | rfl | rfl <;> exact hlarge _ (by omega) (by omega)
  · simp only [List.mem_cons, List.not_mem_nil, or_false] at hb
    rcases hb with rfl | rfl | rfl | rfl <;> exact hlarge _ (by omega) (by omega)

theorem isLine_char (c : Char) :
    IsLine ((String.utf8EncodeChar c).flatMap fun b => (Piece.ofByte b).write) := by
  by_cases hc : c.toNat < 0x80
  · rw [utf8EncodeChar_ascii hc, List.flatMap_singleton]
    refine isLine_ofByte ?_
    show (UInt8.ofNat c.toNat).toNat < 128
    rw [UInt8.toNat_ofNat']
    omega
  · have hlarge : ∀ b ∈ String.utf8EncodeChar c, 0x80 ≤ b :=
      fun b hb => large_of_mem_utf8EncodeChar (by omega) hb
    have he : (String.utf8EncodeChar c).flatMap (fun b => (Piece.ofByte b).write) =
        String.utf8EncodeChar c := by
      rw [List.flatMap_def, List.map_congr_left fun b hb => write_ofByte_large (hlarge b hb),
        ← List.flatMap_def, List.flatMap_singleton']
    rw [he]
    exact ⟨⟨[c], (List.flatMap_singleton _ _).symm⟩, fun hm => absurd (hlarge 10 hm) (by decide)⟩

theorem isLine_writeText (s : String) : IsLine (writeText (piecesOf s)) := by
  have hs : (piecesOf s).flatMap Piece.write =
      s.toList.flatMap fun c => (String.utf8EncodeChar c).flatMap fun b =>
        (Piece.ofByte b).write := by
    rw [piecesOf, ← String.ofList_toList (s := s), utf8_ofList, List.flatMap_map,
      List.flatMap_assoc, String.toList_ofList]
  rw [writeText, hs]
  exact .cons (by
    decide) ((IsLine.flatMap fun c _ => isLine_char c).append (isLine_ascii (by decide)))

/-! ## Values -/

theorem isLine_writeDigits (ds : List Digit) : IsLine (writeDigits ds) := by
  have hall : ∀ d : Digit, isInLine (0x30 + d.val.toUInt8) = true := by decide
  refine isLine_ascii (List.all_eq_true.mpr fun b hb => ?_)
  obtain ⟨d, -, rfl⟩ := List.mem_map.mp hb
  exact hall d

theorem isLine_numeral (n : Numeral) : IsLine n.write := by
  have hexponent : IsLine (writeExponent n.exponent) := by
    cases n.exponent with
    | none => exact isLine_ascii rfl
    | some e =>
      refine .cons (by decide) (.cons ?_ (isLine_writeDigits e.digits))
      cases e.negative <;> decide
  rw [Numeral.write_eq, Numeral.tail]
  refine IsLine.append ?_ ((isLine_writeDigits n.whole).append (IsLine.append ?_ hexponent))
  · cases n.negative <;> exact isLine_ascii (by decide)
  · cases n.fraction with
    | nil => exact isLine_ascii rfl
    | cons d ds => exact .cons (by decide) (isLine_writeDigits (d :: ds))

mutual

/-- A canonical value is written on one line. -/
theorem isLine_write : ∀ v : Json, v.Canonical → IsLine v.write
  | .null, _ => isLine_ascii (by decide)
  | .bool true, _ => isLine_ascii (by decide)
  | .bool false, _ => isLine_ascii (by decide)
  | .number n, _ => isLine_numeral n
  | .text _, ⟨s, rfl⟩ => isLine_writeText s
  | .array [], _ => isLine_ascii (by decide)
  | .array (v :: items), h =>
    .cons (by decide) ((isLine_write v h.1).append (isLine_writeItems items h.2))
  | .object [], _ => isLine_ascii (by decide)
  | .object ((_, v) :: members), ⟨⟨s, rfl⟩, hv, hvs⟩ =>
    .cons (by decide) ((isLine_writeText s).append
      (.cons (by decide) ((isLine_write v hv).append (isLine_writeMembers members hvs))))

theorem isLine_writeItems : ∀ items : List Json, CanonicalItems items → IsLine (writeItems items)
  | [], _ => isLine_ascii (by decide)
  | v :: items, h => .cons (by decide) ((isLine_write v h.1).append (isLine_writeItems items h.2))

theorem isLine_writeMembers :
    ∀ members : List (List Piece × Json), CanonicalMembers members → IsLine (writeMembers members)
  | [], _ => isLine_ascii (by decide)
  | (_, v) :: members, ⟨⟨s, rfl⟩, hv, hvs⟩ =>
    .cons (by decide) ((isLine_writeText s).append
      (.cons (by decide) ((isLine_write v hv).append (isLine_writeMembers members hvs))))

end

end Json

end StreamControl
