import StreamControl.Decimal.Shortest

/-!
# Notations of a decimal

Two ways to write a shortest decimal. The plain notation is positional whatever the size and shows
a whole number without a point; messages and listings use it. The data notation always shows a
point or an exponent, and leaves the positional form outside `10^-5 ≤ |x| < 10^16`; stored text
uses it. Both are read off the digits and the place of the first digit.
-/

namespace StreamControl

namespace Decimal

/-- The decimal digits of a natural number, most significant first. -/
def digitsOf (n : Nat) : List Char := Nat.toDigits 10 n

/-- Digits in front of the point and behind it. -/
def split (d : Decimal) : List Char × List Char :=
  let ds := digitsOf d.digits
  if 0 ≤ d.exponent then
    if d.digits = 0 then (['0'], []) else (ds ++ List.replicate d.exponent.toNat '0', [])
  else
    let behind := (-d.exponent).toNat
    if behind < ds.length then (ds.take (ds.length - behind), ds.drop (ds.length - behind))
    else (['0'], List.replicate (behind - ds.length) '0' ++ ds)

/-- The decimal exponent of the first digit. -/
def leading (d : Decimal) : Int := (digitsOf d.digits).length - 1 + d.exponent

/-- Whether the data notation writes the number positionally. -/
def isPositional (d : Decimal) : Bool := d.digits = 0 || (-5 ≤ d.leading && d.leading ≤ 15)

/-- The plain notation: positional, no point behind a whole number. -/
def plain (d : Decimal) : String :=
  let (whole, fraction) := d.split
  String.ofList ((if d.negative then ['-'] else []) ++ whole ++
    (if fraction.isEmpty then [] else '.' :: fraction))

end Decimal

/-- The plain text of a double, as messages and listings show it. -/
def plainText (x : Float) : String :=
  match Decimal.shortest .up x with
  | .nan => "NaN"
  | .infinite false => "inf"
  | .infinite true => "-inf"
  | .finite d => d.plain

end StreamControl
