import StreamControl.Json.Basic

/-!
# Writing JSON

`Json.write` writes a value without blanks, members in order. A quote, a backslash and the control
characters with a letter of their own are escaped by that letter, code units by their number in
lower-case hexadecimal; every other byte stands for itself. `Json.writePretty` is the indented form
for people.
-/

namespace StreamControl

namespace Json

/-- The bytes of an ASCII text. -/
def ascii (s : String) : Bytes := s.toList.map fun c => c.toNat.toUInt8

def writeDigits (ds : List Digit) : Bytes := ds.map fun d => 0x30 + d.val.toUInt8

def Exponent.write (e : Exponent) : Bytes :=
  0x65 :: (if e.negative then 0x2D else 0x2B) :: writeDigits e.digits

def Numeral.write (n : Numeral) : Bytes :=
  (if n.negative then [0x2D] else []) ++ writeDigits n.whole ++
    (if n.fraction.isEmpty then [] else 0x2E :: writeDigits n.fraction) ++
    (match n.exponent with
      | none => []
      | some e => e.write)

def Piece.write : Piece → Bytes
  | .byte b =>
    if b = 0x22 then [0x5C, 0x22]
    else if b = 0x5C then [0x5C, 0x5C]
    else if b = 8 then [0x5C, 0x62]
    else if b = 9 then [0x5C, 0x74]
    else if b = 10 then [0x5C, 0x6E]
    else if b = 12 then [0x5C, 0x66]
    else if b = 13 then [0x5C, 0x72]
    else [b]
  | .unit u => 0x5C :: 0x75 :: (hexDigits 4 u.toNat).map fun c => c.toNat.toUInt8

def writeText (pieces : List Piece) : Bytes := 0x22 :: (pieces.flatMap Piece.write ++ [0x22])

mutual

def write : Json → Bytes
  | .null => ascii "null"
  | .bool true => ascii "true"
  | .bool false => ascii "false"
  | .number n => n.write
  | .text pieces => writeText pieces
  | .array [] => [0x5B, 0x5D]
  | .array (v :: rest) => 0x5B :: (v.write ++ writeItems rest)
  | .object [] => [0x7B, 0x7D]
  | .object ((name, v) :: rest) =>
    0x7B :: (writeText name ++ 0x3A :: (v.write ++ writeMembers rest))

/-- The items behind the first, and the closing bracket. -/
def writeItems : List Json → Bytes
  | [] => [0x5D]
  | v :: rest => 0x2C :: (v.write ++ writeItems rest)

/-- The members behind the first, and the closing brace. -/
def writeMembers : List (List Piece × Json) → Bytes
  | [] => [0x7D]
  | (name, v) :: rest => 0x2C :: (writeText name ++ 0x3A :: (v.write ++ writeMembers rest))

end

/-- A new line at a depth of nesting. -/
def newLine (depth : Nat) : Bytes := 10 :: List.replicate (2 * depth) 0x20

mutual

/-- The indented form of a value that stands at a depth of nesting. -/
def writePretty (depth : Nat) : Json → Bytes
  | .array (v :: rest) =>
    0x5B :: (newLine (depth + 1) ++ v.writePretty (depth + 1) ++ prettyItems depth rest)
  | .object ((name, v) :: rest) =>
    0x7B :: (newLine (depth + 1) ++ writeText name ++ [0x3A, 0x20] ++ v.writePretty (depth + 1) ++
      prettyMembers depth rest)
  | .null => ascii "null"
  | .bool true => ascii "true"
  | .bool false => ascii "false"
  | .number n => n.write
  | .text pieces => writeText pieces
  | .array [] => [0x5B, 0x5D]
  | .object [] => [0x7B, 0x7D]

def prettyItems (depth : Nat) : List Json → Bytes
  | [] => newLine depth ++ [0x5D]
  | v :: rest =>
    0x2C :: (newLine (depth + 1) ++ v.writePretty (depth + 1) ++ prettyItems depth rest)

def prettyMembers (depth : Nat) : List (List Piece × Json) → Bytes
  | [] => newLine depth ++ [0x7D]
  | (name, v) :: rest =>
    0x2C :: (newLine (depth + 1) ++ writeText name ++ [0x3A, 0x20] ++ v.writePretty (depth + 1) ++
      prettyMembers depth rest)

end

/-- The text of bytes that came out of a writer. -/
def textOf (bytes : Bytes) : String := (ofUtf8? bytes).getD ""

/-- The written form as text. -/
def toText (v : Json) : String := textOf v.write

/-- The indented form as text. -/
def toPrettyText (v : Json) : String := textOf (v.writePretty 0)

end Json

end StreamControl
