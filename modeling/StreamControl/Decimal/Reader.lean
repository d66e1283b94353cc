import StreamControl.Decimal.Shortest

/-!
# Doubles from texts

`Decimal.read?` reads the plain notation, with or without an exponent, and the words for what is
not finite. `Decimal.Reading.toFloat` is the double nearest to what was read: the fraction is
divided exactly, with 53 bits in front of the point or as many as the least exponent leaves, and a
remainder of exactly one half goes to the even neighbour. It undoes `Decimal.shortest`.
-/

namespace StreamControl

namespace Decimal

/-! ## Rounding -/

/-- The encoding of the largest finite double and one more, which stands for infinity. -/
def infinityBits : Nat := 2047 * Nat.pow 2 52

/-- The least exponent of a double's last place. -/
def leastExponent : Int := -1074

/-- The quotient of two numbers, rounded to the nearest number and from the middle to an even
one. -/
def roundedQuotient (n d : Nat) : Nat :=
  let q := n / d
  let r := n % d
  if d < 2 * r ∨ (2 * r = d ∧ q % 2 = 1) then q + 1 else q

/-- The place of the last bit of the double nearest to a fraction, before the result is rounded. -/
def lastPlace (n d : Nat) : Int :=
  let e : Int := (n.log2 : Int) - d.log2 - 53
  let scaled := n * Nat.pow 2 (-e).toNat / (d * Nat.pow 2 e.toNat)
  max leastExponent (if Nat.pow 2 53 ≤ scaled then e + 1 else e)

/-- The encoding of the double nearest to a fraction. A significand that is rounded up to the next
power of two carries into the exponent. -/
def nearestBits (n d : Nat) : Nat :=
  if n = 0 then 0
  else
    let e := lastPlace n d
    let m := roundedQuotient (n * Nat.pow 2 (-e).toNat) (d * Nat.pow 2 e.toNat)
    min infinityBits ((e - leastExponent).toNat * Nat.pow 2 52 + m)

/-- The encoding of the double nearest to `digits · 10^exponent`. No double has a first digit beyond
`10^310` or below `10^-330`. -/
def magnitudeBits (digits : Nat) (exponent : Int) : Nat :=
  let size := (Nat.toDigits 10 digits).length + exponent
  if digits = 0 ∨ size < -330 then 0
  else if 310 < size then infinityBits
  else nearestBits (digits * Nat.pow 10 exponent.toNat) (Nat.pow 10 (-exponent).toNat)

/-- The double with an encoding, negated if asked to. -/
def ofMagnitude (negative : Bool) (bits : Nat) : Float :=
  Float.ofBits (bits + if negative then Nat.pow 2 63 else 0).toUInt64

def Reading.toFloat : Reading → Float
  | .nan => ofMagnitude false (infinityBits + Nat.pow 2 51)
  | .infinite negative => ofMagnitude negative infinityBits
  | .finite d => ofMagnitude d.negative (magnitudeBits d.digits d.exponent)

/-! ## Reading -/

/-- A sign, which may be left out: whether it is a minus. -/
def readSign : List Char → Bool × List Char
  | '-' :: cs => (true, cs)
  | '+' :: cs => (false, cs)
  | cs => (false, cs)

/-- The number that decimal digits spell. -/
def natOfDigits (cs : List Char) : Nat := cs.foldl (fun n c => 10 * n + (c.toNat - '0'.toNat)) 0

/-- The exponent behind a number, which may be left out. -/
def readExponent? : List Char → Option Int
  | [] => some 0
  | e :: cs =>
    let (negative, digits) := readSign cs
    if (e = 'e' ∨ e = 'E') ∧ digits ≠ [] ∧ digits.all Char.isDigit then
      some (if negative then -natOfDigits digits else natOfDigits digits)
    else none

/-- A number without its sign: digits with a point in or around them, and an exponent. -/
def readMagnitude? (negative : Bool) (cs : List Char) : Option Decimal := do
  let (whole, rest) := cs.span Char.isDigit
  let (fraction, rest) := match rest with
    | '.' :: rest => rest.span Char.isDigit
    | rest => ([], rest)
  if whole.isEmpty && fraction.isEmpty then none
  else some ⟨negative, natOfDigits (whole ++ fraction), (← readExponent? rest) - fraction.length⟩

/-- Reads a number, or a word for none or for an infinite one in letters of either case. -/
def read? (text : String) : Option Reading :=
  let (negative, cs) := readSign text.toList
  match String.ofList (cs.map Char.toLower) with
  | "nan" => some .nan
  | "inf" | "infinity" => some (.infinite negative)
  | _ => .finite <$> readMagnitude? negative cs

end Decimal

end StreamControl
