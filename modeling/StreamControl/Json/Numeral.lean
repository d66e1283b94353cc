import StreamControl.Decimal.Notation
import StreamControl.Json.Basic

/-!
# What a numeral stands for

A numeral without fraction and exponent that fits 64 bits is a whole number; any other is a double,
and so is `-0`. The double is formed from at most the digits that fit 64 bits, read as one whole
number, and a power of ten that makes up for the rest: the whole number is rounded to a double and
multiplied or divided by the power once. Below `10^-308` the division is done in steps. A magnitude
beyond the doubles is no number.

The other way, `Numeral.ofFloat?` writes the shortest decimal that rounds to the double.
-/

namespace StreamControl

namespace Json

/-- The value of a numeral. -/
inductive Number
  | natural (n : Nat)
  | negative (n : Nat)
  | real (x : Float)

/-- The largest whole number kept exactly. -/
def maxNatural : Nat := Nat.pow 2 64 - 1

/-- Reads digits into a significand as long as it fits, and returns the digits left over. -/
def gather : Nat → List Digit → Nat × List Digit
  | n, [] => (n, [])
  | n, d :: rest =>
    if 10 * n + d.val ≤ maxNatural then gather (10 * n + d.val) rest else (n, d :: rest)

/-- A power of ten as a double. -/
def tenTo (n : Nat) : Float := Float.ofScientific 1 false n

/-- Divides by a power of ten in steps of `10^308`. -/
def scaleDown : Nat → Float → Nat → Float
  | 0, x, _ => x
  | fuel + 1, x, n =>
    if n ≤ 308 then x / tenTo n
    else if x == 0 then x
    else scaleDown fuel (x / tenTo 308) (n - 308)

/-- The double `significand · 10^exponent`, or nothing if it is too large. -/
def scale? (significand : Nat) (exponent : Int) : Option Float :=
  let x := significand.toUInt64.toFloat
  if 0 ≤ exponent then
    if exponent ≤ 308 then
      let y := x * tenTo exponent.toNat
      if y.isInf then none else some y
    else if x == 0 then some x
    else none
  else some (scaleDown 4 x (-exponent).toNat)

/-- The largest exponent that is told apart from larger ones. -/
def maxExponent : Nat := Nat.pow 2 31 - 1

def natOf (ds : List Digit) : Nat := ds.foldl (fun n d => 10 * n + d.val) 0

def Numeral.magnitude? (n : Numeral) : Option Float :=
  let (whole, dropped) := gather 0 n.whole
  let (significand, unread) := gather whole n.fraction
  let shift : Int := dropped.length - (n.fraction.length - unread.length : Int)
  match n.exponent with
  | none => scale? significand shift
  | some e =>
    let size := natOf e.digits
    if size > maxExponent then
      if significand = 0 ∨ e.negative then some 0 else none
    else scale? significand (if e.negative then shift - size else shift + size)

def Numeral.isWhole (n : Numeral) : Bool := n.fraction.isEmpty && n.exponent.isNone

/-- The value of a numeral, or nothing if it is too large for a double. -/
def Numeral.value? (n : Numeral) : Option Number :=
  let whole := natOf n.whole
  if n.isWhole ∧ ¬n.negative ∧ whole ≤ maxNatural then some (.natural whole)
  else if n.isWhole ∧ n.negative ∧ 0 < whole ∧ whole ≤ Nat.pow 2 63 then some (.negative whole)
  else (fun x => .real (if n.negative then -x else x)) <$> n.magnitude?

def Number.toFloat : Number → Float
  | .natural n => n.toUInt64.toFloat
  | .negative n => -n.toUInt64.toFloat
  | .real x => x

/-! ## Writing doubles -/

/-- The data notation of a decimal. -/
def Numeral.ofDecimal (d : Decimal) : Numeral :=
  let digits (cs : List Char) : List Digit := cs.map fun c => Digit.ofNat (c.toNat - '0'.toNat)
  if d.isPositional then
    let (whole, fraction) := d.split
    ⟨d.negative, digits whole, if fraction.isEmpty then [0] else digits fraction, none⟩
  else
    let ds := digits (Decimal.digitsOf d.digits)
    ⟨d.negative, ds.take 1, ds.drop 1, some ⟨d.leading < 0, digitsOf d.leading.natAbs⟩⟩

/-- The numeral of a finite double. -/
def Numeral.ofFloat? (x : Float) : Option Numeral :=
  match Decimal.shortest .even x with
  | .finite d => some (.ofDecimal d)
  | _ => none

/-- A double; one that is not finite has no numeral and is written as `null`. -/
def float (x : Float) : Json :=
  match Numeral.ofFloat? x with
  | some n => .number n
  | none => .null

end Json

end StreamControl
