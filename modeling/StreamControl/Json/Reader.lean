import StreamControl.Json.Basic

/-!
# Reading JSON

`Json.parse?` reads one value with blanks around it from bytes. It checks form only: the grammar of
values, numerals and escapes, and that no control character stands raw in a text. Bytes inside a
text are taken as they are.

Every reader returns what it read and the bytes behind it. The one for values recurs on a fuel that
`parse?` sets to the length of the input, which no nesting can exceed.
-/

namespace StreamControl

namespace Json

def isBlank (b : UInt8) : Bool := b = 0x20 || b = 0x0A || b = 0x09 || b = 0x0D

def skipBlanks (bytes : Bytes) : Bytes := bytes.dropWhile isBlank

/-! ## Numerals -/

def digit? (b : UInt8) : Option Digit :=
  if 0x30 ≤ b ∧ b ≤ 0x39 then some (Digit.ofNat (b.toNat - 0x30)) else none

/-- The longest run of digits in front. -/
def readDigits : Bytes → List Digit × Bytes
  | [] => ([], [])
  | b :: rest =>
    match digit? b with
    | none => ([], b :: rest)
    | some d => let (ds, behind) := readDigits rest; (d :: ds, behind)

/-- At least one digit. -/
def readSomeDigits? (bytes : Bytes) : Option (List Digit × Bytes) :=
  match readDigits bytes with
  | ([], _) => none
  | result => some result

/-- The digits in front of the point: a leading zero stands alone. -/
def readWhole? (bytes : Bytes) : Option (List Digit × Bytes) := do
  let (ds, rest) ← readSomeDigits? bytes
  if ds.head? = some (.ofNat 0) ∧ ds.length ≠ 1 then none else some (ds, rest)

def readFraction? : Bytes → Option (List Digit × Bytes)
  | 0x2E :: rest => readSomeDigits? rest
  | bytes => some ([], bytes)

def readExponentDigits? (negative : Bool) (bytes : Bytes) : Option (Option Exponent × Bytes) :=
  (fun (ds, rest) => (some ⟨negative, ds⟩, rest)) <$> readSomeDigits? bytes

def readExponent? : Bytes → Option (Option Exponent × Bytes)
  | [] => some (none, [])
  | b :: rest =>
    if b = 0x65 ∨ b = 0x45 then
      match rest with
      | 0x2B :: rest => readExponentDigits? false rest
      | 0x2D :: rest => readExponentDigits? true rest
      | rest => readExponentDigits? false rest
    else some (none, b :: rest)

def readUnsigned? (negative : Bool) (bytes : Bytes) : Option (Numeral × Bytes) := do
  let (whole, rest) ← readWhole? bytes
  let (fraction, rest) ← readFraction? rest
  let (exponent, rest) ← readExponent? rest
  some ({ negative, whole, fraction, exponent }, rest)

def readNumeral? : Bytes → Option (Numeral × Bytes)
  | 0x2D :: rest => readUnsigned? true rest
  | bytes => readUnsigned? false bytes

/-! ## Texts -/

def hexOf? (bytes : Bytes) : Option Nat := hexNumber? (bytes.map fun b => Char.ofNat b.toNat)

/-- What a one-letter escape stands for. -/
def letter? (b : UInt8) : Option UInt8 :=
  if b = 0x22 ∨ b = 0x5C ∨ b = 0x2F then some b
  else if b = 0x62 then some 8
  else if b = 0x74 then some 9
  else if b = 0x6E then some 10
  else if b = 0x66 then some 12
  else if b = 0x72 then some 13
  else none

/-- The pieces up to the closing quote. -/
def readPieces? : Bytes → Option (List Piece × Bytes)
  | [] => none
  | 0x22 :: rest => some ([], rest)
  | 0x5C :: 0x75 :: h₁ :: h₂ :: h₃ :: h₄ :: rest => do
    let u ← hexOf? [h₁, h₂, h₃, h₄]
    let (pieces, behind) ← readPieces? rest
    some (.unit u.toUInt16 :: pieces, behind)
  | 0x5C :: b :: rest => do
    let c ← letter? b
    let (pieces, behind) ← readPieces? rest
    some (.byte c :: pieces, behind)
  | b :: rest =>
    if b < 0x20 ∨ b = 0x5C then none
    else do
      let (pieces, behind) ← readPieces? rest
      some (.byte b :: pieces, behind)

/-! ## Values -/

/-- Takes `word` off the front. -/
def readWord? (word : Bytes) (v : Json) (bytes : Bytes) : Option (Json × Bytes) :=
  if bytes.take word.length = word then some (v, bytes.drop word.length) else none

mutual

def readValue? : Nat → Bytes → Option (Json × Bytes)
  | 0, _ => none
  | fuel + 1, bytes =>
    match bytes with
    | [] => none
    | 0x22 :: rest => (fun (pieces, behind) => (.text pieces, behind)) <$> readPieces? rest
    | 0x5B :: rest =>
      match skipBlanks rest with
      | 0x5D :: behind => some (.array [], behind)
      | rest => do
        let (items, behind) ← readItems? fuel rest
        some (.array items, behind)
    | 0x7B :: rest =>
      match skipBlanks rest with
      | 0x7D :: behind => some (.object [], behind)
      | rest => do
        let (members, behind) ← readMembers? fuel rest
        some (.object members, behind)
    | 0x6E :: rest => readWord? [0x75, 0x6C, 0x6C] .null rest
    | 0x74 :: rest => readWord? [0x72, 0x75, 0x65] (.bool true) rest
    | 0x66 :: rest => readWord? [0x61, 0x6C, 0x73, 0x65] (.bool false) rest
    | bytes => (fun (n, behind) => (.number n, behind)) <$> readNumeral? bytes

/-- One item or more, up to the closing bracket. -/
def readItems? : Nat → Bytes → Option (List Json × Bytes)
  | 0, _ => none
  | fuel + 1, bytes => do
    let (v, rest) ← readValue? fuel bytes
    match skipBlanks rest with
    | 0x5D :: behind => some ([v], behind)
    | 0x2C :: rest => do
      let (items, behind) ← readItems? fuel (skipBlanks rest)
      some (v :: items, behind)
    | _ => none

/-- One member or more, up to the closing brace. -/
def readMembers? : Nat → Bytes → Option (List (List Piece × Json) × Bytes)
  | 0, _ => none
  | fuel + 1, bytes =>
    match bytes with
    | 0x22 :: rest => do
      let (name, rest) ← readPieces? rest
      match skipBlanks rest with
      | 0x3A :: rest => do
        let (v, rest) ← readValue? fuel (skipBlanks rest)
        match skipBlanks rest with
        | 0x7D :: behind => some ([(name, v)], behind)
        | 0x2C :: rest => do
          let (members, behind) ← readMembers? fuel (skipBlanks rest)
          some ((name, v) :: members, behind)
        | _ => none
      | _ => none
    | _ => none

end

/-- One value with nothing but blanks around it. -/
def parse? (bytes : Bytes) : Option Json := do
  let (v, rest) ← readValue? (bytes.length + 1) (skipBlanks bytes)
  if (skipBlanks rest).isEmpty then some v else none

end Json

end StreamControl
