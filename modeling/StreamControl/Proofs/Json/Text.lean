import StreamControl.Json.Reader
import StreamControl.Json.Writer
import StreamControl.Proofs.Text

/-!
# Texts in JSON

A written text is read back as the same pieces (`readPieces?_write`), and the pieces of a text spell
it (`toText?_piecesOf`). What is written of a text is text again, without line ends.
-/

namespace StreamControl

namespace Json

/-- A piece that stands for a byte is written as one: raw, or by its letter. -/
def Piece.IsPlain : Piece → Prop
  | .byte b => 0x20 ≤ b ∨ hasLetter b = true
  | .unit _ => True

theorem isPlain_ofByte (b : UInt8) : (Piece.ofByte b).IsPlain := by
  unfold Piece.ofByte
  split
  · trivial
  · rename_i h
    simp only [Bool.and_eq_true, decide_eq_true_eq, Bool.not_eq_true', not_and, Bool.not_eq_false]
      at h
    rcases Nat.lt_or_ge b.toNat 0x20 with hlt | hge
    · exact .inr (h hlt)
    · exact .inl hge

/-! ## Reading back -/

theorem hexOf?_write (u : UInt16) :
    hexOf? ((hexDigits 4 u.toNat).map fun c => c.toNat.toUInt8) = some u.toNat := by
  have hdigit : ∀ n, Char.ofNat ((hexDigit n).toNat.toUInt8).toNat = hexDigit n := by
    have hall : ∀ d : Fin 16, Char.ofNat ((Nat.digitChar d.val).toNat.toUInt8).toNat =
      Nat.digitChar d.val := by decide
    exact fun n => hall ⟨n % 16, Nat.mod_lt n (by decide)⟩
  have hmap : ∀ count n, ((hexDigits count n).map fun c => c.toNat.toUInt8).map
      (fun b => Char.ofNat b.toNat) = hexDigits count n := by
    intro count
    induction count with
    | zero => exact fun _ => rfl
    | succ count ih =>
      intro n
      rw [hexDigits, List.map_append, List.map_append, ih, List.map_singleton, List.map_singleton,
        hdigit]
  have hsmall : u.toNat < 16 ^ 4 := u.toNat_lt
  rw [hexOf?, hmap, hexNumber?_hexDigits, Nat.mod_eq_of_lt hsmall]

theorem readPieces?_unit (u : UInt16) (bytes : Bytes) :
    readPieces? ((Piece.unit u).write ++ bytes) = (fun (ps, rest) => (.unit u :: ps, rest)) <$>
      readPieces? bytes := by
  obtain ⟨h₁, h₂, h₃, h₄, he⟩ :
      ∃ h₁ h₂ h₃ h₄, ((hexDigits 4 u.toNat).map fun c => c.toNat.toUInt8) = [h₁, h₂, h₃, h₄] :=
    ⟨_, _, _, _, rfl⟩
  have hu := hexOf?_write u
  rw [he] at hu
  rw [Piece.write, he]
  show readPieces? (0x5C :: 0x75 :: h₁ :: h₂ :: h₃ :: h₄ :: bytes) = _
  rw [readPieces?, hu]
  cases readPieces? bytes with
  | none => rfl
  | some found => simp

theorem readPieces?_escape {c b : UInt8} (h : letter? c = some b) (bytes : Bytes) :
    readPieces? (0x5C :: c :: bytes) = (fun (ps, rest) => (.byte b :: ps, rest)) <$>
      readPieces? bytes := by
  have hu : c ≠ 0x75 := by
    rintro rfl
    cases h
  rw [readPieces?, h]
  · cases readPieces? bytes <;> rfl
  · exact fun _ _ _ _ _ hc => absurd hc hu

theorem readPieces?_raw {b : UInt8} (h : 0x20 ≤ b) (hq : b ≠ 0x22) (hs : b ≠ 0x5C) (bytes : Bytes) :
    readPieces? (b :: bytes) = (fun (ps, rest) => (.byte b :: ps, rest)) <$> readPieces? bytes := by
  have hno : ¬(b < 0x20 ∨ b = 0x5C) := fun h' => h'.elim (UInt8.not_lt.mpr h) hs
  rw [readPieces?.eq_def]
  split
  · contradiction
  · simp_all
  · simp_all
  · simp_all
  · rename_i heq
    obtain ⟨rfl, rfl⟩ := List.cons.inj heq
    rw [if_neg hno]
    cases readPieces? bytes <;> rfl

theorem readPieces?_byte {b : UInt8} (hb : (Piece.byte b).IsPlain) (bytes : Bytes) :
    readPieces? ((Piece.byte b).write ++ bytes) = (fun (ps, rest) => (.byte b :: ps, rest)) <$>
      readPieces? bytes := by
  by_cases h₁ : b = 0x22
  · subst h₁; exact readPieces?_escape rfl bytes
  by_cases h₂ : b = 0x5C
  · subst h₂; exact readPieces?_escape rfl bytes
  by_cases h₃ : b = 8
  · subst h₃; exact readPieces?_escape rfl bytes
  by_cases h₄ : b = 9
  · subst h₄; exact readPieces?_escape rfl bytes
  by_cases h₅ : b = 10
  · subst h₅; exact readPieces?_escape rfl bytes
  by_cases h₆ : b = 12
  · subst h₆; exact readPieces?_escape rfl bytes
  by_cases h₇ : b = 13
  · subst h₇; exact readPieces?_escape rfl bytes
  have hge : 0x20 ≤ b := by
    rcases hb with hb | hb
    · exact hb
    · simp [hasLetter, h₃, h₄, h₅, h₆, h₇] at hb
  simp only [Piece.write, h₁, h₂, h₃, h₄, h₅, h₆, h₇, ↓reduceIte, List.cons_append, List.nil_append]
  exact readPieces?_raw hge h₁ h₂ bytes

theorem readPieces?_write {pieces : List Piece} (h : ∀ p ∈ pieces, p.IsPlain) (rest : Bytes) :
    readPieces? (pieces.flatMap Piece.write ++ 0x22 :: rest) = some (pieces, rest) := by
  induction pieces with
  | nil => rfl
  | cons p pieces ih =>
    have ih := ih fun q hq => h q (List.mem_cons_of_mem p hq)
    rw [List.flatMap_cons, List.append_assoc]
    cases p with
    | byte b =>
      rw [readPieces?_byte (h _ List.mem_cons_self), ih]
      rfl
    | unit u =>
      rw [readPieces?_unit, ih]
      rfl

/-! ## Spelling -/

theorem bytesOf?_ofByte (bytes : Bytes) : bytesOf? (bytes.map Piece.ofByte) = some bytes := by
  induction bytes with
  | nil => rfl
  | cons b bytes ih =>
    rw [List.map_cons]
    by_cases h : (b < 0x20 && !hasLetter b) = true
    · have hall : ∀ n : Fin 32, isLow (UInt8.ofNat n.val).toUInt16.toNat = false ∧
          isHigh (UInt8.ofNat n.val).toUInt16.toNat = false ∧
            codePoint (UInt8.ofNat n.val).toUInt16.toNat = [UInt8.ofNat n.val] := by
        decide
      have hlt : b < 0x20 := of_decide_eq_true (Bool.and_eq_true_iff.mp h).1
      have hb := hall ⟨b.toNat, hlt⟩
      simp only [UInt8.ofNat_toNat] at hb
      obtain ⟨hlow, hhigh, hcode⟩ := hb
      rw [show Piece.ofByte b = .unit b.toUInt16 from if_pos h, bytesOf?.eq_def]
      simp only [hlow, hhigh, hcode, ih, Bool.false_eq_true, ↓reduceIte]
      rfl
    · rw [show Piece.ofByte b = .byte b from if_neg h, bytesOf?, ih]
      rfl

theorem toText?_piecesOf (s : String) : toText? (piecesOf s) = some s := by
  rw [toText?, piecesOf, bytesOf?_ofByte]
  exact ofUtf8?_utf8 s

end Json

end StreamControl
