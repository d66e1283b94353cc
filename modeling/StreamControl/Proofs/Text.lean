import StreamControl.Text.Utf8
import Mathlib.Algebra.Ring.Nat

/-!
# Bytes of texts

`ofUtf8?_utf8`: the bytes of a text are read back as that text. `IsText` says that bytes are those
of a text: texts joined are one, and so are bytes below `0x80`.
-/

namespace StreamControl

theorem toList_loop (bytes : ByteArray) (i : Nat) (acc : List UInt8) :
    ByteArray.toList.loop bytes i acc = acc.reverse ++ bytes.data.toList.drop i := by
  induction i, acc using ByteArray.toList.loop.induct bytes with
  | case1 i acc hi ih =>
    have hdrop : bytes.data.toList.drop i = bytes.data[i] :: bytes.data.toList.drop (i + 1) :=
      List.drop_eq_getElem_cons (by simpa using hi)
    rw [ByteArray.toList.loop, if_pos hi, ih, hdrop]
    simp [ByteArray.get!, hi]
  | case2 i acc hi =>
    have hdrop : bytes.data.toList.drop i = [] := List.drop_eq_nil_of_le (by simpa using hi)
    rw [ByteArray.toList.loop, if_neg hi, hdrop, List.append_nil]

theorem utf8_eq (s : String) : utf8 s = s.toByteArray.data.toList := by
  rw [utf8, String.toUTF8_eq_toByteArray, ByteArray.toList, toList_loop, List.reverse_nil,
    List.nil_append, List.drop_zero]

theorem ofUtf8?_utf8 (s : String) : ofUtf8? (utf8 s) = some s := by
  have he : (⟨(utf8 s).toArray⟩ : ByteArray) = s.toByteArray := by
    rw [utf8_eq, Array.toArray_toList]
  rw [ofUtf8?, he, String.fromUTF8?, dif_pos s.isValidUTF8]
  rfl

theorem utf8_ofList (cs : List Char) :
    utf8 (String.ofList cs) = cs.flatMap String.utf8EncodeChar := by
  rw [utf8_eq, String.toByteArray_ofList, List.utf8Encode, List.toList_data_toByteArray]

theorem utf8_append (s t : String) : utf8 (s ++ t) = utf8 s ++ utf8 t := by
  rw [← String.ofList_toList (s := s), ← String.ofList_toList (s := t), ← String.ofList_append,
    utf8_ofList, utf8_ofList, utf8_ofList, List.flatMap_append]

/-- Bytes of a text. -/
def IsText (bytes : Bytes) : Prop := ∃ cs : List Char, bytes = cs.flatMap String.utf8EncodeChar

theorem IsText.ofUtf8? {bytes : Bytes} (h : IsText bytes) :
    ∃ s, ofUtf8? bytes = some s ∧ utf8 s = bytes := by
  obtain ⟨cs, rfl⟩ := h
  rw [← utf8_ofList]
  exact ⟨_, ofUtf8?_utf8 _, rfl⟩

theorem utf8_of_ofUtf8? {bytes : Bytes} {s : String} (h : ofUtf8? bytes = some s) :
    utf8 s = bytes := by
  rw [StreamControl.ofUtf8?, String.fromUTF8?] at h
  split at h
  · rw [← Option.some.inj h, utf8_eq]
    rfl
  · cases h

theorem isText_of_ofUtf8? {bytes : Bytes} {s : String} (h : ofUtf8? bytes = some s) :
    IsText bytes :=
  ⟨s.toList, by rw [← utf8_ofList, String.ofList_toList, utf8_of_ofUtf8? h]⟩

/-- The bytes of no text are refused. -/
theorem ofUtf8?_eq_none_iff {bytes : Bytes} : ofUtf8? bytes = none ↔ ¬IsText bytes := by
  refine ⟨fun h ht => ?_, fun h => ?_⟩
  · obtain ⟨s, hs, -⟩ := ht.ofUtf8?
    rw [hs] at h
    cases h
  · cases hs : ofUtf8? bytes with
    | none => rfl
    | some s => exact absurd (isText_of_ofUtf8? hs) h

theorem isText_nil : IsText [] := ⟨[], rfl⟩

theorem IsText.append {bytes bytes' : Bytes} (h : IsText bytes) (h' : IsText bytes') :
    IsText (bytes ++ bytes') := by
  obtain ⟨cs, rfl⟩ := h
  obtain ⟨cs', rfl⟩ := h'
  exact ⟨cs ++ cs', (List.flatMap_append).symm⟩

theorem IsText.flatMap {α : Type} {f : α → Bytes} {xs : List α} (h : ∀ x ∈ xs, IsText (f x)) :
    IsText (xs.flatMap f) := by
  induction xs with
  | nil => exact isText_nil
  | cons x xs ih =>
    exact (h x List.mem_cons_self).append (ih fun y hy => h y (List.mem_cons_of_mem x hy))

theorem isText_byte {b : UInt8} (h : b < 0x80) : IsText [b] := by
  have hall : ∀ n : Fin 128, [UInt8.ofNat n.val] =
    [Char.ofNat n.val].flatMap String.utf8EncodeChar := by decide
  refine ⟨[Char.ofNat b.toNat], ?_⟩
  rw [← hall ⟨b.toNat, h⟩, UInt8.ofNat_toNat]

theorem isText_ascii {bytes : Bytes} (h : ∀ b ∈ bytes, b < 0x80) : IsText bytes := by
  have hj := IsText.flatMap (f := fun b => [b]) fun b hb => isText_byte (h b hb)
  rwa [List.flatMap_singleton'] at hj

/-! ## Hexadecimal digits -/

theorem hexValue?_hexDigit (n : Nat) : hexValue? (hexDigit n) = some (n % 16) := by
  have hall : ∀ d : Fin 16, hexValue? (Nat.digitChar d.val) = some d.val := by decide
  exact hall ⟨n % 16, Nat.mod_lt n (by decide)⟩

theorem hexNumber?_concat (cs : List Char) (c : Char) :
    hexNumber? (cs ++ [c]) = hexNumber? cs >>= fun n => (16 * n + ·) <$> hexValue? c := by
  simp [hexNumber?, List.foldlM_append]

/-- The last digits of a number spell its remainder. -/
theorem hexNumber?_hexDigits (count n : Nat) :
    hexNumber? (hexDigits count n) = some (n % 16 ^ count) := by
  induction count generalizing n with
  | zero => simp [hexDigits, hexNumber?, Nat.mod_one]
  | succ count ih =>
    have he : 16 * (n / 16 % 16 ^ count) + n % 16 = n % 16 ^ (count + 1) := by
      rw [Nat.pow_succ', Nat.mod_mul]
      omega
    rw [hexDigits, hexNumber?_concat, ih, hexValue?_hexDigit]
    simp [he]

theorem length_hexDigits (count n : Nat) : (hexDigits count n).length = count := by
  induction count generalizing n with
  | zero => rfl
  | succ count ih => rw [hexDigits, List.length_append, ih, List.length_singleton]

end StreamControl
