import StreamControl.Text.Utf8

/-!
# JSON values

A `Json` value keeps what was written: a numeral as its digits, a text as its pieces, an object as
its members in order, repeated names included. What a numeral or a text stands for is decided when
somebody asks (`Json.Numeral.value?` in `StreamControl.Json.Numeral`, `Json.toText?` here), so that
a value nobody asks for need only be well formed.
-/

namespace StreamControl

namespace Json

/-- A digit of a numeral. -/
abbrev Digit := Fin 10

/-- The last digit of a natural number. -/
def Digit.ofNat (n : Nat) : Digit := ⟨n % 10, Nat.mod_lt n (Nat.succ_pos 9)⟩

/-- The exponent part of a numeral. -/
structure Exponent where
  negative : Bool
  digits : List Digit
  deriving DecidableEq, Repr

/-- A number as written. -/
structure Numeral where
  negative : Bool
  whole : List Digit
  fraction : List Digit
  exponent : Option Exponent
  deriving DecidableEq, Repr

/-- An element of a text as written: a byte, given raw or by a one-letter escape, or a UTF-16 code
unit given by its number. -/
inductive Piece
  | byte (b : UInt8)
  | unit (u : UInt16)
  deriving DecidableEq, Repr

end Json

/-- A JSON value as written. -/
inductive Json
  | null
  | bool (b : Bool)
  | number (n : Json.Numeral)
  | text (pieces : List Json.Piece)
  | array (items : List Json)
  | object (members : List (List Json.Piece × Json))
  deriving Repr

namespace Json

instance : Inhabited Json := ⟨.null⟩

/-! ## Texts -/

/-- The UTF-8 bytes of a code point. -/
def codePoint (n : Nat) : Bytes :=
  if n < 0x80 then [n.toUInt8]
  else if n < 0x800 then [(0xC0 + n / 0x40).toUInt8, (0x80 + n % 0x40).toUInt8]
  else if n < 0x10000 then
    [(0xE0 + n / 0x1000).toUInt8, (0x80 + n / 0x40 % 0x40).toUInt8, (0x80 + n % 0x40).toUInt8]
  else
    [(0xF0 + n / 0x40000).toUInt8, (0x80 + n / 0x1000 % 0x40).toUInt8,
      (0x80 + n / 0x40 % 0x40).toUInt8, (0x80 + n % 0x40).toUInt8]

/-- A code unit that starts a surrogate pair. -/
def isHigh (n : Nat) : Bool := 0xD800 ≤ n && n < 0xDC00

/-- A code unit that ends a surrogate pair. -/
def isLow (n : Nat) : Bool := 0xDC00 ≤ n && n < 0xE000

/-- The bytes that pieces spell; surrogates have to come in pairs. -/
def bytesOf? : List Piece → Option Bytes
  | [] => some []
  | .byte b :: rest => (b :: ·) <$> bytesOf? rest
  | .unit u :: rest =>
    if isLow u.toNat then none
    else if isHigh u.toNat then
      match rest with
      | .unit v :: rest =>
        if isLow v.toNat then
          (codePoint (0x10000 + (u.toNat - 0xD800) * 0x400 + (v.toNat - 0xDC00)) ++ ·) <$>
            bytesOf? rest
        else none
      | _ => none
    else (codePoint u.toNat ++ ·) <$> bytesOf? rest

/-- The text that pieces spell. -/
def toText? (pieces : List Piece) : Option String := bytesOf? pieces >>= ofUtf8?

/-- Whether a byte below 0x20 has a one-letter escape. -/
def hasLetter (b : UInt8) : Bool := b = 8 || b = 9 || b = 10 || b = 12 || b = 13

/-- How a byte of a text is written: control characters without a letter of their own by number. -/
def Piece.ofByte (b : UInt8) : Piece :=
  if b < 0x20 && !hasLetter b then .unit b.toUInt16 else .byte b

/-- The pieces of a text. -/
def piecesOf (s : String) : List Piece := (utf8 s).map Piece.ofByte

/-! ## Building values -/

/-- The digits of a natural number. -/
def digitsOf (n : Nat) : List Digit :=
  if n < 10 then [Digit.ofNat n] else digitsOf (n / 10) ++ [Digit.ofNat n]

/-- The numeral of a natural number. -/
def Numeral.ofNat (n : Nat) : Numeral := ⟨false, digitsOf n, [], none⟩

def nat (n : Nat) : Json := .number (.ofNat n)

def string (s : String) : Json := .text (piecesOf s)

/-- An object with the given members. -/
def record (members : List (String × Json)) : Json :=
  .object (members.map fun (name, value) => (piecesOf name, value))

/-! ## Depth -/

mutual

/-- How many arrays and objects stand inside one another. -/
def height : Json → Nat
  | .array items => heightItems items + 1
  | .object members => heightMembers members + 1
  | _ => 0

def heightItems : List Json → Nat
  | [] => 0
  | v :: rest => max v.height (heightItems rest)

def heightMembers : List (List Piece × Json) → Nat
  | [] => 0
  | (_, v) :: rest => max v.height (heightMembers rest)

end

end Json

end StreamControl
