import StreamControl.Proofs.Json.Prefix
import StreamControl.Proofs.Json.RoundTrip
import Mathlib.Data.List.Induction

/-!
# Values behind other bytes

No text holds a value behind bytes of its own that are more than blanks, if the value is an object
whose first member's name begins with a letter (`Whole.parse?_append`). Whatever a reader takes of
such bytes, it stops in front of the object: it is not inside one that could go on with another. A
text that began before it may take in the brace and the quote, but what then stands behind is the
name, where no reader goes on.
-/

namespace StreamControl

namespace Json

variable {w bytes rest : Bytes} {fuel : Nat}

/-- What stands behind the brace and the quote that some bytes begin with: a name whose first byte
is no blank and no punctuation. -/
def AtName (w rest : Bytes) : Prop :=
  w = 0x7B :: 0x22 :: rest ∧ ∃ c behind, rest = c :: behind ∧ isBlank c = false ∧
  c ≠ 0x3A ∧ c ≠ 0x2C ∧ c ≠ 0x5D ∧ c ≠ 0x7D

/-- Bytes that hold an object with such a name in front, and nothing else. -/
structure Whole (w : Bytes) : Prop where
  opens : ∃ rest, AtName w rest
  full : ∀ {fuel : Nat} {v : Json} {rest : Bytes}, readValue? fuel w = some (v, rest) →
    skipBlanks rest = []

theorem AtName.skipBlanks (h : AtName w rest) :
    ∃ c behind, skipBlanks rest = c :: behind ∧ c ≠ 0x3A ∧ c ≠ 0x2C ∧ c ≠ 0x5D ∧ c ≠ 0x7D := by
  obtain ⟨-, c, behind, rfl, hblank, hc⟩ := h
  exact ⟨c, behind, skipBlanks_cons hblank behind, hc⟩

/-- More fuel does not change what is read. -/
theorem readValue?_more {fuel' : Nat} {v : Json} (hread : readValue? fuel bytes = some (v, rest))
    (hends : Ends v rest) (hle : fuel ≤ fuel') : readValue? fuel' bytes = some (v, rest) := by
  have hmore := readValue?_append [] hread hends hle
  rwa [List.append_nil, List.append_nil] at hmore

theorem readValue?_brace {v : Json} (hread : readValue? fuel (0x7B :: bytes) = some (v, rest))
    (n : Numeral) : v ≠ .number n := by
  cases fuel with
  | zero => cases hread
  | succ fuel =>
    rw [readValue?] at hread
    split at hread
    · cases hread
      exact Json.noConfusion
    · obtain ⟨found, -, he⟩ := Option.bind_eq_some_iff.mp hread
      cases he
      exact Json.noConfusion

namespace Whole

theorem tail {b : UInt8} (hw : w <:+ b :: bytes) (hne : b :: bytes ≠ w) : w <:+ bytes :=
  (List.suffix_cons_iff.mp hw).resolve_left fun he => hne he.symm

/-- A byte that is no brace stands in front of the object. -/
theorem tail_of_ne {b : UInt8} (h : Whole w) (hw : w <:+ b :: bytes) (hb : b ≠ 0x7B) :
    w <:+ bytes := by
  obtain ⟨rest, he, -⟩ := h.opens
  refine tail hw fun hw => hb ?_
  rw [he] at hw
  exact (List.cons.inj hw).1

theorem ne_nil (h : Whole w) (hw : w <:+ bytes) : bytes ≠ [] := by
  rintro rfl
  obtain ⟨rest, he, -⟩ := h.opens
  cases he.symm.trans (List.suffix_nil.mp hw)

theorem suffix_skipBlanks (h : Whole w) (hw : w <:+ bytes) : w <:+ skipBlanks bytes := by
  induction bytes with
  | nil => exact hw
  | cons b bytes ih =>
    by_cases hb : isBlank b = true
    · rw [skipBlanks, List.dropWhile_cons_of_pos hb]
      refine ih (h.tail_of_ne hw ?_)
      rintro rfl
      cases hb
    · rwa [skipBlanks, List.dropWhile_cons_of_neg hb]

/-- The object stands behind a byte that is no brace, too, where only blanks are in front of the
byte. -/
theorem suffix_behind {b : UInt8} (h : Whole w) (hw : w <:+ bytes)
    (hskip : skipBlanks bytes = b :: rest) (hb : b ≠ 0x7B) : w <:+ rest :=
  h.tail_of_ne (hskip ▸ h.suffix_skipBlanks hw) hb

/-! ## Numerals and words -/

theorem suffix_readDigits {ds : List Digit} (h : Whole w) (hw : w <:+ bytes)
    (hread : readDigits bytes = (ds, rest)) : w <:+ rest := by
  induction bytes generalizing ds with
  | nil =>
    cases hread
    exact hw
  | cons b bytes ih =>
    rw [readDigits] at hread
    cases hd : digit? b with
    | none =>
      rw [hd] at hread
      cases hread
      exact hw
    | some d =>
      rw [hd] at hread
      cases hread
      refine ih (h.tail_of_ne hw ?_) rfl
      rintro rfl
      cases hd

theorem suffix_readSomeDigits? {ds : List Digit} (h : Whole w) (hw : w <:+ bytes)
    (hread : readSomeDigits? bytes = some (ds, rest)) :
    w <:+ rest := by
  unfold readSomeDigits? at hread
  rcases hd : readDigits bytes with ⟨_ | ⟨d, ds'⟩, rest'⟩
  · rw [hd] at hread
    cases hread
  · rw [hd] at hread
    cases hread
    exact h.suffix_readDigits hw hd

theorem suffix_readWhole? {ds : List Digit} (h : Whole w) (hw : w <:+ bytes)
    (hread : readWhole? bytes = some (ds, rest)) : w <:+ rest := by
  obtain ⟨⟨ds', rest'⟩, hdigits, hread⟩ := Option.bind_eq_some_iff.mp hread
  dsimp only at hread
  split at hread <;> cases hread
  exact h.suffix_readSomeDigits? hw hdigits

theorem suffix_readFraction? {ds : List Digit} (h : Whole w) (hw : w <:+ bytes)
    (hread : readFraction? bytes = some (ds, rest)) :
    w <:+ rest := by
  unfold readFraction? at hread
  split at hread
  · exact h.suffix_readSomeDigits? (h.tail_of_ne hw (by decide)) hread
  · cases hread
    exact hw

theorem suffix_readExponentDigits? {negative : Bool} {e : Option Exponent} (h : Whole w)
    (hw : w <:+ bytes) (hread : readExponentDigits? negative bytes = some (e, rest)) :
    w <:+ rest := by
  obtain ⟨⟨ds, rest'⟩, hdigits, hread⟩ := Option.map_eq_some_iff.mp hread
  cases hread
  exact h.suffix_readSomeDigits? hw hdigits

theorem suffix_readExponent? {e : Option Exponent} (h : Whole w) (hw : w <:+ bytes)
    (hread : readExponent? bytes = some (e, rest)) :
    w <:+ rest := by
  unfold readExponent? at hread
  split at hread
  · exact absurd rfl (h.ne_nil hw)
  · split at hread
    · rename_i b bytes he
      have hw := h.tail_of_ne hw (by rcases he with rfl | rfl <;> decide)
      split at hread
      · exact h.suffix_readExponentDigits? (h.tail_of_ne hw (by decide)) hread
      · exact h.suffix_readExponentDigits? (h.tail_of_ne hw (by decide)) hread
      · exact h.suffix_readExponentDigits? hw hread
    · cases hread
      exact hw

theorem suffix_readUnsigned? {negative : Bool} {n : Numeral} (h : Whole w) (hw : w <:+ bytes)
    (hread : readUnsigned? negative bytes = some (n, rest)) : w <:+ rest := by
  obtain ⟨⟨whole, rest₁⟩, hwhole, hread⟩ := Option.bind_eq_some_iff.mp hread
  obtain ⟨⟨fraction, rest₂⟩, hfraction, hread⟩ := Option.bind_eq_some_iff.mp hread
  obtain ⟨⟨exponent, rest₃⟩, hexponent, hread⟩ := Option.bind_eq_some_iff.mp hread
  cases hread
  exact h.suffix_readExponent? (h.suffix_readFraction? (h.suffix_readWhole? hw hwhole) hfraction)
    hexponent

theorem suffix_readNumeral? {n : Numeral} (h : Whole w) (hw : w <:+ bytes)
    (hread : readNumeral? bytes = some (n, rest)) : w <:+ rest := by
  unfold readNumeral? at hread
  split at hread
  · exact h.suffix_readUnsigned? (h.tail_of_ne hw (by decide)) hread
  · exact h.suffix_readUnsigned? hw hread

/-- A word without a brace does not reach into the object. -/
theorem suffix_readWord? {word : Bytes} {v v' : Json} (h : Whole w) (hword : (0x7B : UInt8) ∉ word)
    (hw : w <:+ bytes) (hread : readWord? word v bytes = some (v', rest)) : w <:+ rest := by
  unfold readWord? at hread
  split at hread
  · rename_i htake
    cases hread
    clear v
    induction word generalizing bytes with
    | nil => exact hw
    | cons b word ih =>
      cases bytes with
      | nil => exact hw
      | cons b' bytes =>
        rw [List.length_cons, List.take_succ_cons] at htake
        obtain ⟨rfl, hmore⟩ := List.cons.inj htake
        rw [List.mem_cons, not_or] at hword
        exact ih hword.2 (h.tail_of_ne hw (Ne.symm hword.1)) hmore
  · cases hread

/-! ## Texts -/

/-- A brace is no hexadecimal digit. -/
theorem not_mem_of_hexOf? {u : Nat} (hread : hexOf? bytes = some u) : (0x7B : UInt8) ∉ bytes := by
  induction bytes using List.reverseRecOn generalizing u with
  | nil => exact List.not_mem_nil
  | append_singleton bytes b ih =>
    rw [hexOf?, List.map_append, List.map_singleton, hexNumber?_concat] at hread
    obtain ⟨n, hbytes, hread⟩ := Option.bind_eq_some_iff.mp hread
    obtain ⟨k, hb, -⟩ := Option.map_eq_some_iff.mp hread
    refine fun hm => (List.mem_append.mp hm).elim (ih hbytes) fun hm => ?_
    rw [← List.mem_singleton.mp hm] at hb
    cases hb

/-- A text ends in front of the object, or at its first quote. -/
theorem suffix_readPieces? {pieces : List Piece} (h : Whole w) (hw : w <:+ bytes)
    (hread : readPieces? bytes = some (pieces, rest)) :
    w <:+ rest ∨ AtName w rest := by
  fun_induction readPieces? bytes generalizing pieces with
  | case1 => cases hread
  | case2 bytes =>
    cases hread
    exact .inl (h.tail_of_ne hw (by decide))
  | case3 h₁ h₂ h₃ h₄ bytes ih =>
    obtain ⟨u, hu, hread⟩ := Option.bind_eq_some_iff.mp hread
    obtain ⟨⟨pieces', rest'⟩, hread, he⟩ := Option.bind_eq_some_iff.mp hread
    cases he
    -- the four digits are no braces, nor are the two bytes in front of them
    have hdigits := not_mem_of_hexOf? hu
    simp only [List.mem_cons, List.not_mem_nil, or_false, not_or] at hdigits
    obtain ⟨hne₁, hne₂, hne₃, hne₄⟩ := hdigits
    have hw := h.tail_of_ne (h.tail_of_ne hw (by decide)) (by decide)
    have hw := h.tail_of_ne (h.tail_of_ne hw (Ne.symm hne₁)) (Ne.symm hne₂)
    exact ih (h.tail_of_ne (h.tail_of_ne hw (Ne.symm hne₃)) (Ne.symm hne₄)) hread
  | case4 b bytes _ ih =>
    obtain ⟨c, hc, hread⟩ := Option.bind_eq_some_iff.mp hread
    obtain ⟨⟨pieces', rest'⟩, hread, he⟩ := Option.bind_eq_some_iff.mp hread
    cases he
    refine ih (h.tail_of_ne (h.tail_of_ne hw (by decide)) ?_) hread
    rintro rfl
    cases hc
  | case5 => cases hread
  | case6 b bytes hquote _ _ hraw ih =>
    obtain ⟨⟨pieces', rest'⟩, hread, he⟩ := Option.bind_eq_some_iff.mp hread
    cases he
    rcases List.suffix_cons_iff.mp hw with rfl | hw
    · obtain ⟨name, he, hname⟩ := h.opens
      obtain ⟨rfl, rfl⟩ := List.cons.inj he
      cases hread
      exact .inr ⟨rfl, hname⟩
    · exact ih hw hread

/-! ## Values -/

/-- Where an item or a member has ended and the list goes on or ends, the object is still behind:
behind the object itself nothing is left, and no list goes on at its first name. -/
theorem suffix_ended {b : UInt8} {v : Json} (h : Whole w)
    (hread : readValue? fuel bytes = some (v, rest))
    (hends : bytes ≠ w → w <:+ rest ∨ AtName w rest) {more : Bytes}
    (hskip : skipBlanks rest = b :: more) (hb : b = 0x2C ∨ b = 0x5D ∨ b = 0x7D) : w <:+ more := by
  by_cases hw : bytes = w
  · subst hw
    rw [h.full hread] at hskip
    cases hskip
  · rcases hends hw with hbehind | hname
    · exact h.suffix_behind hbehind hskip (by rcases hb with rfl | rfl | rfl <;> decide)
    · obtain ⟨c, name, hskip', hc⟩ := hname.skipBlanks
      rw [hskip'] at hskip
      obtain ⟨rfl, -⟩ := List.cons.inj hskip
      exact absurd hb (by simp [hc])

mutual

/-- A value that begins in front of the object ends in front of it, or is a text that ends
inside. -/
theorem suffix_readValue? (h : Whole w) : ∀ {fuel : Nat} {bytes rest : Bytes} {v : Json},
    readValue? fuel bytes = some (v, rest) → w <:+ bytes → bytes ≠ w → w <:+ rest ∨ AtName w rest
  | 0, _, _, _, hread, _, _ => by cases hread
  | fuel + 1, bytes, rest, v, hread, hw, hne => by
    unfold readValue? at hread
    dsimp only at hread
    split at hread
    · cases hread
    · -- a text
      obtain ⟨⟨pieces, behind⟩, hpieces, he⟩ := Option.map_eq_some_iff.mp hread
      cases he
      exact h.suffix_readPieces? (tail hw hne) hpieces
    · -- an array
      have hw := h.suffix_skipBlanks (tail hw hne)
      split at hread
      · rename_i hskip
        cases hread
        exact .inl (h.tail_of_ne (hskip ▸ hw) (by decide))
      · obtain ⟨⟨items, behind⟩, hitems, he⟩ := Option.bind_eq_some_iff.mp hread
        cases he
        exact .inl (suffix_readItems? h hitems hw)
    · -- an object
      have hw := h.suffix_skipBlanks (tail hw hne)
      split at hread
      · rename_i hskip
        cases hread
        exact .inl (h.tail_of_ne (hskip ▸ hw) (by decide))
      · obtain ⟨⟨members, behind⟩, hmembers, he⟩ := Option.bind_eq_some_iff.mp hread
        cases he
        exact .inl (suffix_readMembers? h hmembers hw)
    · exact .inl (h.suffix_readWord? (by decide) (tail hw hne) hread)
    · exact .inl (h.suffix_readWord? (by decide) (tail hw hne) hread)
    · exact .inl (h.suffix_readWord? (by decide) (tail hw hne) hread)
    · -- a numeral
      obtain ⟨⟨n, behind⟩, hnumeral, he⟩ := Option.map_eq_some_iff.mp hread
      cases he
      exact .inl (h.suffix_readNumeral? hw hnumeral)

theorem suffix_readItems? (h : Whole w) : ∀ {fuel : Nat} {bytes rest : Bytes} {items : List Json},
    readItems? fuel bytes = some (items, rest) → w <:+ bytes → w <:+ rest
  | 0, _, _, _, hread, _ => by cases hread
  | fuel + 1, bytes, rest, items, hread, hw => by
    rw [readItems?] at hread
    obtain ⟨⟨v, behind⟩, hvalue, hread⟩ := Option.bind_eq_some_iff.mp hread
    dsimp only at hread
    have hends := suffix_readValue? h hvalue hw
    split at hread
    · rename_i hskip
      cases hread
      exact h.suffix_ended hvalue hends hskip (by decide)
    · rename_i hskip
      obtain ⟨⟨items', behind'⟩, hitems, he⟩ := Option.bind_eq_some_iff.mp hread
      cases he
      exact suffix_readItems? h hitems
        (h.suffix_skipBlanks (h.suffix_ended hvalue hends hskip (by decide)))
    · cases hread

theorem suffix_readMembers? (h : Whole w) :
    ∀ {fuel : Nat} {bytes rest : Bytes} {members : List (List Piece × Json)},
    readMembers? fuel bytes = some (members, rest) → w <:+ bytes → w <:+ rest
  | 0, _, _, _, hread, _ => by cases hread
  | fuel + 1, bytes, rest, members, hread, hw => by
    unfold readMembers? at hread
    dsimp only at hread
    split at hread
    · obtain ⟨⟨name, behind⟩, hname, hread⟩ := Option.bind_eq_some_iff.mp hread
      dsimp only at hread
      split at hread
      · rename_i bytes' hcolon
        obtain ⟨⟨v, behind'⟩, hvalue, hread⟩ := Option.bind_eq_some_iff.mp hread
        dsimp only at hread
        -- the name of a member does not end at the object's first name, where no colon follows
        have hw : w <:+ behind := by
          refine (h.suffix_readPieces? (h.tail_of_ne hw (by decide)) hname).resolve_right
            fun hat => ?_
          obtain ⟨c, more, hskip, hc, -⟩ := hat.skipBlanks
          rw [hskip] at hcolon
          exact hc (List.cons.inj hcolon).1
        have hw := h.suffix_skipBlanks (h.suffix_behind hw hcolon (by decide))
        have hends := suffix_readValue? h hvalue hw
        split at hread
        · rename_i hskip
          cases hread
          exact h.suffix_ended hvalue hends hskip (by decide)
        · rename_i hskip
          obtain ⟨⟨members', behind''⟩, hmembers, he⟩ := Option.bind_eq_some_iff.mp hread
          cases he
          exact suffix_readMembers? h hmembers
            (h.suffix_skipBlanks (h.suffix_ended hvalue hends hskip (by decide)))
        · cases hread
      · cases hread
    · cases hread

end

/-- An object is no numeral. -/
theorem ends {v : Json} (h : Whole w) (hread : readValue? fuel w = some (v, rest)) :
    Ends v rest := by
  obtain ⟨name, rfl, -⟩ := h.opens
  exact .inr (readValue?_brace hread)

theorem skipBlanks_self (h : Whole w) : skipBlanks w = w := by
  obtain ⟨rest, rfl, -⟩ := h.opens
  rfl

/-- Behind other bytes the object is read only if these are blanks. -/
theorem parse?_append {v : Json} (h : Whole w) (hv : parse? w = some v) (bytes : Bytes) :
    parse? (bytes ++ w) = if bytes.all isBlank then some v else none := by
  split
  · rename_i hblank
    have hskip : skipBlanks (bytes ++ w) = w := by
      rw [← isEmpty_skipBlanks, skipBlanks] at hblank
      rw [skipBlanks, List.dropWhile_append, if_pos hblank]
      exact h.skipBlanks_self
    rw [parse?, h.skipBlanks_self] at hv
    obtain ⟨⟨v', rest⟩, hread, he⟩ := Option.bind_eq_some_iff.mp hv
    have hle : w.length + 1 ≤ (bytes ++ w).length + 1 := by
      rw [List.length_append]
      omega
    rw [parse?, hskip, readValue?_more hread (h.ends hread) hle]
    exact he
  · rename_i hfull
    have hne : skipBlanks (bytes ++ w) ≠ w := by
      intro he
      have hfull : skipBlanks bytes ≠ [] := by
        rwa [ne_eq, ← List.isEmpty_iff, isEmpty_skipBlanks]
      rw [skipBlanks_append hfull] at he
      exact hfull (List.self_eq_append_left.mp he.symm)
    cases hread : readValue? ((bytes ++ w).length + 1) (skipBlanks (bytes ++ w)) with
    | none => rw [parse?, hread, Option.bind_eq_bind, Option.bind_none]
    | some found =>
      obtain ⟨v', rest⟩ := found
      have hrest : skipBlanks rest ≠ [] := by
        rcases h.suffix_readValue? hread (h.suffix_skipBlanks (List.suffix_append bytes w)) hne with
          hbehind | hname
        · exact h.ne_nil (h.suffix_skipBlanks hbehind)
        · obtain ⟨c, more, hskip, -⟩ := hname.skipBlanks
          rw [hskip]
          exact List.cons_ne_nil c more
      rw [parse?, hread]
      exact if_neg (by rwa [List.isEmpty_iff])

end Whole

/-- What is written of a record whose first member's name begins with a letter. -/
theorem whole_write {name : String} {c : UInt8} {letters : Bytes}
    (hname : (piecesOf name).flatMap Piece.write = c :: letters) {v : Json}
    {members : List (String × Json)} (hcanonical : (record ((name, v) :: members)).Canonical)
    (hc : isBlank c = false ∧ c ≠ 0x3A ∧ c ≠ 0x2C ∧ c ≠ 0x5D ∧ c ≠ 0x7D) :
    Whole (record ((name, v) :: members)).write := by
  have hopens : ∃ rest, AtName (record ((name, v) :: members)).write rest := by
    refine ⟨c ::
      (letters ++ 0x22 :: 0x3A ::
        (v.write ++ writeMembers (members.map fun m => (piecesOf m.1, m.2)))), ?_, c, _, rfl, hc⟩
    show (object ((piecesOf name, v) :: _)).write = _
    rw [write, writeText, hname]
    simp
  refine ⟨hopens, fun {fuel v' rest} hread => ?_⟩
  obtain ⟨behind, hopen, -⟩ := hopens
  have hends : Ends v' rest := .inr (readValue?_brace (hopen ▸ hread))
  have hfull :=
    readValue?_write _ (max fuel (record ((name, v) :: members)).write.length) [] hcanonical
      (Nat.le_max_right ..)
    endsNumeral_nil
  rw [List.append_nil, readValue?_more hread hends (Nat.le_max_left ..)] at hfull
  cases hfull
  rfl

end Json

end StreamControl
