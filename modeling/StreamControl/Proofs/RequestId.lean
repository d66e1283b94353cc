import StreamControl.Proofs.Text
import StreamControl.RequestId

/-!
# Request identifiers read back

`RequestId.ofString?_toString`: the written form of an identifier is read back as that identifier.
-/

namespace StreamControl

namespace RequestId

theorem hyphenate_cons (n m : Nat) (groups : List Nat) (cs : List Char) :
    hyphenate (n :: m :: groups) cs = cs.take n ++ '-' :: hyphenate (m :: groups) (cs.drop n) := rfl

/-- The hyphen behind a group of digits is found and taken out. -/
theorem unhyphenate_cons (n m : Nat) (groups : List Nat) (head rest : List Char)
    (h : head.length = n) :
    unhyphenate (n :: m :: groups) (head ++ '-' :: rest) =
      (head ++ ·) <$> unhyphenate (m :: groups) rest := by
  rw [unhyphenate, List.drop_left' h, List.take_left' h]
  · rfl
  · exact List.cons_ne_nil m groups

theorem unhyphenate_hyphenate (groups : List Nat) (cs : List Char) (h : groups.sum ≤ cs.length) :
    unhyphenate groups (hyphenate groups cs) = some cs := by
  induction groups generalizing cs with
  | nil => rfl
  | cons n groups ih =>
    cases groups with
    | nil => rfl
    | cons m groups =>
      rw [List.sum_cons] at h
      have hlen : (cs.take n).length = n := by
        rw [List.length_take]
        omega
      have ih := ih (cs.drop n) (by rw [List.length_drop]; omega)
      rw [hyphenate_cons, unhyphenate_cons _ _ _ _ _ hlen, ih]
      show some (cs.take n ++ cs.drop n) = some cs
      rw [List.take_append_drop]

theorem length_hyphenate (n : Nat) (groups : List Nat) (cs : List Char)
    (h : (n :: groups).sum ≤ cs.length) :
    (hyphenate (n :: groups) cs).length = cs.length + groups.length := by
  induction groups generalizing n cs with
  | nil => rfl
  | cons m groups ih =>
    rw [List.sum_cons] at h
    have ih := ih m (cs.drop n) (by rw [List.length_drop]; omega)
    rw [hyphenate_cons, List.length_append, List.length_cons, ih, List.length_take,
      List.length_drop, List.length_cons]
    rw [List.sum_cons] at h
    omega

theorem ofDigits?_hexDigits (id : RequestId) :
    ofDigits? (hexDigits 32 id.value.toNat) = some id := by
  have hmod : id.value.toNat % 16 ^ 32 = id.value.toNat := Nat.mod_eq_of_lt id.value.isLt
  rw [ofDigits?, if_pos (length_hexDigits 32 _), hexNumber?_hexDigits, hmod]
  show some (ofNat id.value.toNat) = some id
  rw [ofNat, BitVec.ofNat_toNat, BitVec.setWidth_eq]

/-- Any 32 digits are read back from their hyphenated form. -/
theorem ofChars?_hyphenate (cs : List Char) (h : cs.length = 32) :
    ofChars? (hyphenate groups cs) = ofDigits? cs := by
  have hsum : groups.sum ≤ cs.length := by
    rw [h]
    decide
  have hlen : (hyphenate groups cs).length = 36 := by
    rw [groups, length_hyphenate 8 _ cs hsum, h]
    rfl
  rw [ofChars?, if_neg (by rw [hlen]; decide), if_pos hlen, ofHyphenated?, if_pos hlen,
    unhyphenate_hyphenate groups cs hsum]
  rfl

theorem ofString?_toString (id : RequestId) : ofString? id.toString = some id := by
  rw [ofString?, toString, String.toList_ofList, toChars,
    ofChars?_hyphenate _ (length_hexDigits 32 _)]
  exact ofDigits?_hexDigits id

end RequestId

end StreamControl
