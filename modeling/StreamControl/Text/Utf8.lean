/-!
# Bytes and text

Files and log frames hold bytes; the library's text is `String`. `utf8` goes one way and always
succeeds, `ofUtf8?` goes back and refuses bytes that are no text, `lossyText` replaces what is none.
-/

namespace StreamControl

/-- File and message contents. -/
abbrev Bytes := List UInt8

/-- The bytes of a text. -/
def utf8 (s : String) : Bytes := s.toUTF8.toList

/-- The text that has these bytes, if any has. -/
def ofUtf8? (bytes : Bytes) : Option String := String.fromUTF8? ⟨bytes.toArray⟩

/-- The lower-case hexadecimal digit of a number below sixteen. -/
def hexDigit (n : Nat) : Char := Nat.digitChar (n % 16)

/-- The value of a hexadecimal digit of either case. -/
def hexValue? (c : Char) : Option Nat :=
  if '0' ≤ c ∧ c ≤ '9' then some (c.toNat - '0'.toNat)
  else if 'a' ≤ c ∧ c ≤ 'f' then some (c.toNat - 'a'.toNat + 10)
  else if 'A' ≤ c ∧ c ≤ 'F' then some (c.toNat - 'A'.toNat + 10)
  else none

/-- The number that hexadecimal digits spell, read from the most significant one. -/
def hexNumber? (cs : List Char) : Option Nat :=
  cs.foldlM (fun n c => (16 * n + ·) <$> hexValue? c) 0

/-- The bytes that hexadecimal digits spell, two for each. -/
def ofHex? : List Char → Option Bytes
  | [] => some []
  | a :: b :: rest => do
    let byte ← hexNumber? [a, b]
    (byte.toUInt8 :: ·) <$> ofHex? rest
  | _ => none

/-- The last `count` hexadecimal digits of a number. -/
def hexDigits : Nat → Nat → List Char
  | 0, _ => []
  | count + 1, n => hexDigits count (n / 16) ++ [hexDigit n]

/-! ## Bytes that are no text -/

/-- What has to follow a lead byte: the bounds of the next byte, and how many more there are. -/
def sequel? (lead : UInt8) : Option (UInt8 × UInt8 × Nat) :=
  if 0xC2 ≤ lead ∧ lead ≤ 0xDF then some (0x80, 0xBF, 0)
  else if lead = 0xE0 then some (0xA0, 0xBF, 1)
  else if lead = 0xED then some (0x80, 0x9F, 1)
  else if 0xE1 ≤ lead ∧ lead ≤ 0xEF then some (0x80, 0xBF, 1)
  else if lead = 0xF0 then some (0x90, 0xBF, 2)
  else if 0xF1 ≤ lead ∧ lead ≤ 0xF3 then some (0x80, 0xBF, 2)
  else if lead = 0xF4 then some (0x80, 0x8F, 2)
  else none

/-- How many of the bytes behind a lead byte go with it, and whether they make a character. -/
def sequelLength (lead : UInt8) (rest : Bytes) : Nat × Bool :=
  match sequel? lead, rest with
  | none, _ => (0, lead < 0x80)
  | some _, [] => (0, false)
  | some (low, high, more), next :: rest =>
    if low ≤ next ∧ next ≤ high then
      let found := ((rest.take more).takeWhile fun b => 0x80 ≤ b && b ≤ 0xBF).length
      (found + 1, found = more)
    else (0, false)

/-- The bytes of the character that stands for what is no text. -/
def replacement : Bytes := [0xEF, 0xBF, 0xBD]

/-- Replaces every longest start of a character that is not completed. -/
def repair : Bytes → Bytes
  | [] => []
  | lead :: rest =>
    let (count, whole) := sequelLength lead rest
    (if whole then lead :: rest.take count else replacement) ++ repair (rest.drop count)
  termination_by bytes => bytes.length
  decreasing_by simp only [List.length_drop, List.length_cons]; omega

/-- The text of some bytes, as far as they are text. -/
def lossyText (bytes : Bytes) : String := (ofUtf8? (repair bytes)).getD ""

end StreamControl
