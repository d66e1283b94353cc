import StreamControl.Json.Decode
import StreamControl.Proofs.Json.Text
import Mathlib.Data.List.TakeWhile

/-!
# Values in front of other bytes

What a reader has read it also reads in front of more bytes, and leaves these behind
(`readValue?_append`). Only a numeral may go on in them, so something has to stand behind it, as it
always does inside an array or an object. A text that holds such a value therefore holds no value
with more bytes at its end, unless they are blanks (`parse?_append`).
-/

namespace StreamControl

namespace Json

variable {bytes rest more : Bytes} {fuel fuel' : Nat}

theorem skipBlanks_append (h : skipBlanks bytes ≠ []) (more : Bytes) :
    skipBlanks (bytes ++ more) = skipBlanks bytes ++ more := by
  rw [skipBlanks, List.dropWhile_append, if_neg]
  · rfl
  · rwa [List.isEmpty_iff]

theorem isEmpty_skipBlanks (bytes : Bytes) : (skipBlanks bytes).isEmpty = bytes.all isBlank := by
  rw [Bool.eq_iff_iff, List.isEmpty_iff, skipBlanks, List.dropWhile_eq_nil_iff, List.all_eq_true]

/-! ## Numerals -/

theorem readDigits_append {ds : List Digit} (h : readDigits bytes = (ds, rest)) (hne : rest ≠ [])
    (more : Bytes) :
    readDigits (bytes ++ more) = (ds, rest ++ more) := by
  induction bytes generalizing ds with
  | nil =>
    cases h
    contradiction
  | cons b bytes ih =>
    rw [readDigits] at h
    rw [List.cons_append, readDigits]
    cases hd : digit? b with
    | none =>
      rw [hd] at h
      cases h
      rfl
    | some d =>
      rw [hd] at h
      cases h
      simp only [ih rfl]

theorem readSomeDigits?_append {ds : List Digit} (h : readSomeDigits? bytes = some (ds, rest))
    (hne : rest ≠ []) (more : Bytes) :
    readSomeDigits? (bytes ++ more) = some (ds, rest ++ more) := by
  unfold readSomeDigits? at h ⊢
  rcases hd : readDigits bytes with ⟨_ | ⟨d, ds'⟩, rest'⟩
  · rw [hd] at h
    cases h
  · rw [hd] at h
    cases h
    rw [readDigits_append hd hne]

theorem readWhole?_append {ds : List Digit} (h : readWhole? bytes = some (ds, rest))
    (hne : rest ≠ []) (more : Bytes) :
    readWhole? (bytes ++ more) = some (ds, rest ++ more) := by
  obtain ⟨⟨ds', rest'⟩, hread, h⟩ := Option.bind_eq_some_iff.mp h
  dsimp only at h
  split at h
  · cases h
  · rename_i hleading
    cases h
    rw [readWhole?, readSomeDigits?_append hread hne]
    exact if_neg hleading

theorem readFraction?_append {ds : List Digit} (h : readFraction? bytes = some (ds, rest))
    (hne : rest ≠ []) (more : Bytes) :
    readFraction? (bytes ++ more) = some (ds, rest ++ more) := by
  cases bytes with
  | nil =>
    cases h
    contradiction
  | cons b bytes =>
    rw [List.cons_append]
    unfold readFraction? at h ⊢
    split at h
    · rename_i heq
      obtain ⟨rfl, rfl⟩ := List.cons.inj heq
      exact readSomeDigits?_append h hne more
    · rename_i hpoint
      cases h
      split
      · rename_i heq
        obtain ⟨rfl, -⟩ := List.cons.inj heq
        exact absurd rfl (hpoint bytes)
      · rfl

theorem readExponentDigits?_append {negative : Bool} {e : Option Exponent}
    (h : readExponentDigits? negative bytes = some (e, rest)) (hne : rest ≠ []) (more : Bytes) :
    readExponentDigits? negative (bytes ++ more) = some (e, rest ++ more) := by
  obtain ⟨⟨ds, rest'⟩, hread, h⟩ := Option.map_eq_some_iff.mp h
  cases h
  rw [readExponentDigits?, readSomeDigits?_append hread hne]
  rfl

theorem readExponent?_append {e : Option Exponent} (h : readExponent? bytes = some (e, rest))
    (hne : rest ≠ []) (more : Bytes) :
    readExponent? (bytes ++ more) = some (e, rest ++ more) := by
  cases bytes with
  | nil =>
    cases h
    contradiction
  | cons b bytes =>
    rw [List.cons_append]
    unfold readExponent? at h ⊢
    dsimp only at h ⊢
    by_cases he : b = 0x65 ∨ b = 0x45
    · rw [if_pos he] at h ⊢
      cases bytes with
      | nil => cases h
      | cons c bytes =>
        rw [List.cons_append]
        split at h
        · rename_i heq
          obtain ⟨rfl, rfl⟩ := List.cons.inj heq
          exact readExponentDigits?_append h hne more
        · rename_i heq
          obtain ⟨rfl, rfl⟩ := List.cons.inj heq
          exact readExponentDigits?_append h hne more
        · rename_i hplus hminus
          split
          · rename_i heq
            obtain ⟨rfl, -⟩ := List.cons.inj heq
            exact absurd rfl (hplus bytes)
          · rename_i heq
            obtain ⟨rfl, -⟩ := List.cons.inj heq
            exact absurd rfl (hminus bytes)
          · exact readExponentDigits?_append h hne more
    · rw [if_neg he] at h ⊢
      cases h
      rfl

theorem readUnsigned?_append {negative : Bool} {n : Numeral}
    (h : readUnsigned? negative bytes = some (n, rest)) (hne : rest ≠ []) (more : Bytes) :
    readUnsigned? negative (bytes ++ more) = some (n, rest ++ more) := by
  obtain ⟨⟨whole, rest₁⟩, hwhole, h⟩ := Option.bind_eq_some_iff.mp h
  obtain ⟨⟨fraction, rest₂⟩, hfraction, h⟩ := Option.bind_eq_some_iff.mp h
  obtain ⟨⟨exponent, rest₃⟩, hexponent, h⟩ := Option.bind_eq_some_iff.mp h
  cases h
  -- what is left behind a part is not empty, since what is left at the end is not
  have hne₂ : rest₂ ≠ [] := by
    rintro rfl
    cases hexponent
    contradiction
  have hne₁ : rest₁ ≠ [] := by
    rintro rfl
    cases hfraction
    contradiction
  exact Option.bind_eq_some_iff.mpr ⟨_, readWhole?_append hwhole hne₁ more,
    Option.bind_eq_some_iff.mpr
    ⟨_, readFraction?_append hfraction hne₂ more,
      Option.bind_eq_some_iff.mpr ⟨_, readExponent?_append hexponent hne more, rfl⟩⟩⟩

theorem readNumeral?_append {n : Numeral} (h : readNumeral? bytes = some (n, rest))
    (hne : rest ≠ []) (more : Bytes) :
    readNumeral? (bytes ++ more) = some (n, rest ++ more) := by
  cases bytes with
  | nil => cases h
  | cons b bytes =>
    rw [List.cons_append]
    unfold readNumeral? at h ⊢
    split at h
    · rename_i heq
      obtain ⟨rfl, rfl⟩ := List.cons.inj heq
      exact readUnsigned?_append h hne more
    · rename_i hminus
      split
      · rename_i heq
        obtain ⟨rfl, -⟩ := List.cons.inj heq
        exact absurd rfl (hminus bytes)
      · exact readUnsigned?_append h hne more

/-! ## Texts -/

theorem readPieces?_append {pieces : List Piece} (h : readPieces? bytes = some (pieces, rest))
    (more : Bytes) :
    readPieces? (bytes ++ more) = some (pieces, rest ++ more) := by
  fun_induction readPieces? bytes generalizing pieces with
  | case1 => cases h
  | case2 bytes =>
    cases h
    rfl
  | case3 h₁ h₂ h₃ h₄ bytes ih =>
    obtain ⟨u, hu, h⟩ := Option.bind_eq_some_iff.mp h
    obtain ⟨⟨pieces', rest'⟩, hread, h⟩ := Option.bind_eq_some_iff.mp h
    cases h
    simp only [List.cons_append, readPieces?, hu, ih hread]
    rfl
  | case4 b bytes _ ih =>
    obtain ⟨c, hc, h⟩ := Option.bind_eq_some_iff.mp h
    obtain ⟨⟨pieces', rest'⟩, hread, h⟩ := Option.bind_eq_some_iff.mp h
    cases h
    rw [List.cons_append, List.cons_append, readPieces?_escape hc, ih hread]
    rfl
  | case5 => cases h
  | case6 b bytes hquote _ _ hraw ih =>
    obtain ⟨⟨pieces', rest'⟩, hread, h⟩ := Option.bind_eq_some_iff.mp h
    cases h
    rw [not_or, UInt8.not_lt] at hraw
    rw [List.cons_append, readPieces?_raw hraw.1 hquote hraw.2, ih hread]
    rfl

theorem readWord?_append {word : Bytes} {v v' : Json} (h : readWord? word v bytes = some (v', rest))
    (more : Bytes) :
    readWord? word v (bytes ++ more) = some (v', rest ++ more) := by
  unfold readWord? at h ⊢
  split at h
  · rename_i hword
    cases h
    have hlength : word.length ≤ bytes.length := by
      have hl := congrArg List.length hword
      rw [List.length_take] at hl
      omega
    rw [List.take_append_of_le_length hlength, if_pos hword, List.drop_append_of_le_length hlength]
  · cases h

/-! ## Values -/

/-- What ends a value: something behind it, or, if it is no numeral, the value itself. -/
def Ends (v : Json) (rest : Bytes) : Prop := rest ≠ [] ∨ ∀ n, v ≠ .number n

theorem ne_nil_of_readValue? {v : Json} (h : readValue? fuel bytes = some (v, rest)) :
    bytes ≠ [] := by
  rintro rfl
  cases fuel <;> cases h

theorem ne_nil_of_readItems? {items : List Json} (h : readItems? fuel bytes = some (items, rest)) :
    bytes ≠ [] := by
  cases fuel with
  | zero => cases h
  | succ fuel =>
    rw [readItems?] at h
    obtain ⟨⟨v, rest'⟩, hread, -⟩ := Option.bind_eq_some_iff.mp h
    exact ne_nil_of_readValue? hread

theorem ne_nil_of_readMembers? {members : List (List Piece × Json)}
    (h : readMembers? fuel bytes = some (members, rest)) : bytes ≠ [] := by
  rintro rfl
  cases fuel <;> cases h

/-- Blanks are skipped up to some byte, in front of more bytes too. -/
theorem skipBlanks_append_cons {b : UInt8} (h : skipBlanks bytes = b :: rest) (more : Bytes) :
    skipBlanks (bytes ++ more) = b :: (rest ++ more) := by
  rw [skipBlanks_append (by rw [h]; exact List.cons_ne_nil b rest), h, List.cons_append]

theorem cons_append_ne {b c : UInt8} (h : ∀ behind, b :: bytes = c :: behind → False) :
    ∀ behind, b :: (bytes ++ more) = c :: behind → False :=
  fun _ heq => h bytes (congrArg (· :: bytes) (List.cons.inj heq).1)

mutual

/-- A value is read in front of more bytes as it is read alone, with the same fuel or more. -/
theorem readValue?_append (more : Bytes) : ∀ {fuel fuel' : Nat} {bytes rest : Bytes} {v : Json},
    readValue? fuel bytes = some (v, rest) → Ends v rest → fuel ≤ fuel' →
      readValue? fuel' (bytes ++ more) = some (v, rest ++ more)
  | 0, _, _, _, _, h, _, _ => by cases h
  | _ + 1, 0, _, _, _, _, _, hle => absurd hle (Nat.not_succ_le_zero _)
  | fuel + 1, fuel' + 1, bytes, rest, v, h, hends, hle => by
    unfold readValue? at h
    dsimp only at h
    split at h
    · cases h
    · -- a text
      rename_i bytes
      obtain ⟨⟨pieces, behind⟩, hread, h⟩ := Option.map_eq_some_iff.mp h
      cases h
      rw [List.cons_append, readValue?, readPieces?_append hread]
      rfl
    · -- an array
      rename_i bytes
      rw [List.cons_append, readValue?]
      split at h
      · rename_i behind hskip
        cases h
        rw [skipBlanks_append_cons hskip]
        rfl
      · rename_i hopen
        obtain ⟨⟨items, behind⟩, hread, h⟩ := Option.bind_eq_some_iff.mp h
        cases h
        have hitems := readItems?_append more hread (Nat.le_of_succ_le_succ hle)
        rw [skipBlanks_append (ne_nil_of_readItems? hread)]
        split
        · rename_i behind' hclose
          obtain ⟨c, cs, hskip⟩ := List.exists_cons_of_ne_nil (ne_nil_of_readItems? hread)
          rw [hskip] at hclose
          obtain ⟨rfl, -⟩ := List.cons.inj hclose
          exact absurd hskip (hopen cs)
        · rw [hitems]
          rfl
    · -- an object
      rename_i bytes
      rw [List.cons_append, readValue?]
      split at h
      · rename_i behind hskip
        cases h
        rw [skipBlanks_append_cons hskip]
        rfl
      · rename_i hopen
        obtain ⟨⟨members, behind⟩, hread, h⟩ := Option.bind_eq_some_iff.mp h
        cases h
        have hmembers := readMembers?_append more hread (Nat.le_of_succ_le_succ hle)
        rw [skipBlanks_append (ne_nil_of_readMembers? hread)]
        split
        · rename_i behind' hclose
          obtain ⟨c, cs, hskip⟩ := List.exists_cons_of_ne_nil (ne_nil_of_readMembers? hread)
          rw [hskip] at hclose
          obtain ⟨rfl, -⟩ := List.cons.inj hclose
          exact absurd hskip (hopen cs)
        · rw [hmembers]
          rfl
    · rw [List.cons_append, readValue?, readWord?_append h]
    · rw [List.cons_append, readValue?, readWord?_append h]
    · rw [List.cons_append, readValue?, readWord?_append h]
    · -- a numeral
      obtain ⟨⟨n, behind⟩, hread, h⟩ := Option.map_eq_some_iff.mp h
      cases h
      have hne : behind ≠ [] := hends.resolve_right fun hno => hno n rfl
      cases bytes with
      | nil => contradiction
      | cons b bytes =>
        have happend := readNumeral?_append hread hne more
        rw [List.cons_append] at happend ⊢
        rw [readValue?, happend]
        · rfl
        · exact fun heq => nomatch heq
        all_goals exact cons_append_ne (by assumption)

theorem readItems?_append (more : Bytes) :
    ∀ {fuel fuel' : Nat} {bytes rest : Bytes} {items : List Json},
    readItems? fuel bytes = some (items, rest) → fuel ≤ fuel' →
      readItems? fuel' (bytes ++ more) = some (items, rest ++ more)
  | 0, _, _, _, _, h, _ => by cases h
  | _ + 1, 0, _, _, _, _, hle => absurd hle (Nat.not_succ_le_zero _)
  | fuel + 1, fuel' + 1, bytes, rest, items, h, hle => by
    rw [readItems?] at h ⊢
    obtain ⟨⟨v, behind⟩, hread, h⟩ := Option.bind_eq_some_iff.mp h
    dsimp only at h
    have hne : behind ≠ [] := by
      rintro rfl
      cases h
    rw [readValue?_append more hread (.inl hne) (Nat.le_of_succ_le_succ hle)]
    show (match skipBlanks (behind ++ more) with
      | 0x5D :: behind => some ([v], behind)
      | 0x2C :: rest => do
        let (items, behind) ← readItems? fuel' (skipBlanks rest)
        some (v :: items, behind)
      | _ => none) = _
    split at h
    · rename_i hskip
      cases h
      rw [skipBlanks_append_cons hskip]
      rfl
    · rename_i rest' hskip
      obtain ⟨⟨items', behind'⟩, hitems, h⟩ := Option.bind_eq_some_iff.mp h
      cases h
      rw [skipBlanks_append_cons hskip]
      show (do
        let (items, behind) ← readItems? fuel' (skipBlanks (rest' ++ more))
        some (v :: items, behind)) = _
      rw [skipBlanks_append (ne_nil_of_readItems? hitems),
        readItems?_append more hitems (Nat.le_of_succ_le_succ hle)]
      rfl
    · cases h

theorem readMembers?_append (more : Bytes) :
    ∀ {fuel fuel' : Nat} {bytes rest : Bytes} {members : List (List Piece × Json)},
    readMembers? fuel bytes = some (members, rest) → fuel ≤ fuel' →
      readMembers? fuel' (bytes ++ more) = some (members, rest ++ more)
  | 0, _, _, _, _, h, _ => by cases h
  | _ + 1, 0, _, _, _, _, hle => absurd hle (Nat.not_succ_le_zero _)
  | fuel + 1, fuel' + 1, bytes, rest, members, h, hle => by
    unfold readMembers? at h
    dsimp only at h
    split at h
    · rename_i bytes
      obtain ⟨⟨name, behind⟩, hname, h⟩ := Option.bind_eq_some_iff.mp h
      dsimp only at h
      split at h
      · rename_i bytes' hcolon
        obtain ⟨⟨v, behind'⟩, hread, h⟩ := Option.bind_eq_some_iff.mp h
        dsimp only at h
        have hne : behind' ≠ [] := by
          rintro rfl
          cases h
        have hvalue := readValue?_append more hread (.inl hne) (Nat.le_of_succ_le_succ hle)
        rw [← skipBlanks_append (ne_nil_of_readValue? hread)] at hvalue
        rw [List.cons_append, readMembers?, readPieces?_append hname]
        simp only [Option.bind_eq_bind, Option.bind_some, skipBlanks_append_cons hcolon, hvalue]
        split at h
        · rename_i hskip
          cases h
          simp only [skipBlanks_append_cons hskip]
        · rename_i rest' hskip
          obtain ⟨⟨members', behind''⟩, hmembers, h⟩ := Option.bind_eq_some_iff.mp h
          cases h
          simp only [skipBlanks_append_cons hskip,
            skipBlanks_append (ne_nil_of_readMembers? hmembers),
            readMembers?_append more hmembers (Nat.le_of_succ_le_succ hle), Option.bind_some]
        · cases h
      · cases h
    · cases h

end

/-- A text with a value that is no numeral holds no value with more bytes at its end, unless they
are blanks. -/
theorem parse?_append {v : Json} (h : parse? bytes = some v) (hv : ∀ n, v ≠ .number n)
    (more : Bytes) :
    parse? (bytes ++ more) = if more.all isBlank then some v else none := by
  obtain ⟨⟨v', rest⟩, hread, h⟩ := Option.bind_eq_some_iff.mp h
  dsimp only at h
  split at h
  · rename_i hblank
    cases h
    have hle : bytes.length + 1 ≤ (bytes ++ more).length + 1 := by
      rw [List.length_append]
      omega
    have happend := readValue?_append more hread (.inr hv) hle
    have hrest : skipBlanks (rest ++ more) = skipBlanks more := by
      have hblank : (List.dropWhile isBlank rest).isEmpty = true := hblank
      rw [skipBlanks, List.dropWhile_append, if_pos hblank]
      rfl
    rw [parse?, skipBlanks_append (ne_nil_of_readValue? hread), happend]
    show (if (skipBlanks (rest ++ more)).isEmpty then some v else none) = _
    rw [hrest, isEmpty_skipBlanks]
  · cases h

end Json

end StreamControl
