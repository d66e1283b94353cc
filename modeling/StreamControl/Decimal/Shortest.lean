/-!
# Shortest decimals

A finite binary floating-point number stands for an interval of reals, the ones that round to it.
`Decimal.shortest` picks from that interval the decimal with the fewest digits, and of those the
one nearest to the number itself. All of it is exact arithmetic on natural numbers: a candidate
`c · 10^p` is compared with `m · 2^q` after both are brought over a common denominator.
-/

namespace StreamControl

/-- The decimal `±digits · 10^exponent`. -/
structure Decimal where
  negative : Bool
  digits : Nat
  exponent : Int
  deriving DecidableEq, Repr, Inhabited

namespace Decimal

/-- Which of two equally near candidates is taken. -/
inductive Tie
  | up
  | even
  deriving DecidableEq, Repr

/-- A positive dyadic number `significand · 2^exponent`, with the information that its lower
neighbour is only half as far away as its upper one. -/
structure Dyadic where
  significand : Nat
  exponent : Int
  narrow : Bool
  deriving DecidableEq, Repr

/-- The magnitude of a finite non-zero double, from the bits of its encoding. -/
def Dyadic.ofBits (bits : Nat) : Dyadic :=
  let fraction := bits % Nat.pow 2 52
  let biased := bits / Nat.pow 2 52 % Nat.pow 2 11
  if biased = 0 then ⟨fraction, -1074, false⟩
  else ⟨Nat.pow 2 52 + fraction, Int.ofNat biased - 1075, fraction = 0 && biased > 1⟩

/-- A dyadic number seen on the grid of multiples of `10^p`: quarters of its last place, and the
grid's step, over a common denominator. -/
structure OnGrid where
  value : Nat
  quarter : Nat
  step : Nat

/-- `d` on the grid of multiples of `10^p`. -/
def Dyadic.onGrid (d : Dyadic) (p : Int) : OnGrid :=
  let q := d.exponent - 2
  let quarter := Nat.pow 2 q.toNat * Nat.pow 10 (-p).toNat
  { value := 4 * d.significand * quarter
    quarter := quarter
    step := Nat.pow 2 (-q).toNat * Nat.pow 10 p.toNat }

/-- Whether the multiple `c` of the grid's step rounds to the number: it lies between the midpoints
to the two neighbours, which themselves round to it when the significand is even. -/
def Dyadic.covers (d : Dyadic) (g : OnGrid) (c : Nat) : Bool :=
  let low := g.value - (if d.narrow then 1 else 2) * g.quarter
  let high := g.value + 2 * g.quarter
  if d.significand % 2 = 0 then low ≤ c * g.step && c * g.step ≤ high
  else low < c * g.step && c * g.step < high

/-- The multiple of the grid's step that rounds to the number and is nearest to it, if any is. -/
def Dyadic.nearest? (d : Dyadic) (tie : Tie) (p : Int) : Option Nat :=
  let g := d.onGrid p
  let below := g.value / g.step
  let above := below + 1
  match d.covers g below, d.covers g above with
  | false, false => none
  | true, false => some below
  | false, true => some above
  | true, true =>
    match compare (2 * g.value) ((2 * below + 1) * g.step), tie with
    | .lt, _ => some below
    | .gt, _ => some above
    | .eq, .up => some above
    | .eq, .even => some (if below % 2 = 0 then below else above)

/-- Tries `count` grids, from `10^p` downwards, and takes the first with a hit. -/
def Dyadic.coarsest (d : Dyadic) (tie : Tie) : Nat → Int → Nat × Int
  | 0, p => (d.significand, p)
  | count + 1, p =>
    match d.nearest? tie p with
    | some c => (c, p)
    | none => d.coarsest tie count (p - 1)

/-- A power of ten above the number, at most two places above its first digit: 30103/100000 is
just above the logarithm of two. -/
def Dyadic.ceiling (d : Dyadic) : Int :=
  ((d.exponent + d.significand.log2) * 30103).fdiv 100000 + 2

/-- The shortest decimal of a positive dyadic number; seventeen digits always suffice. -/
def Dyadic.shortest (d : Dyadic) (tie : Tie) : Nat × Int :=
  d.coarsest tie 24 d.ceiling

/-- What a double is, once its encoding is taken apart. -/
inductive Reading
  | nan
  | infinite (negative : Bool)
  | finite (value : Decimal)
  deriving DecidableEq, Repr

/-- The shortest decimal that reads back to the double. -/
def shortest (tie : Tie) (x : Float) : Reading :=
  let bits := x.toBits.toNat
  let negative := Nat.pow 2 63 ≤ bits
  let magnitude := bits % Nat.pow 2 63
  if magnitude > 2047 * Nat.pow 2 52 then .nan
  else if magnitude = 2047 * Nat.pow 2 52 then .infinite negative
  else if magnitude = 0 then .finite ⟨negative, 0, 0⟩
  else
    let (c, p) := (Dyadic.ofBits magnitude).shortest tie
    .finite ⟨negative, c, p⟩

end Decimal

end StreamControl
