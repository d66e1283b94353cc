import StreamControl.Text.Blank

/-!
# Timestamps

A moment is kept as a calendar date and a time of day in UTC, to the nanosecond, in the proleptic
Gregorian calendar. Second 60 is a leap second. Written text is RFC 3339 with as many of 0, 3, 6 or
9 fraction digits as the value needs; a year outside 0 … 9999 carries its sign.

The reader takes any offset and subtracts it. It also allows blanks around the parts, a blank or a
lower-case letter between date and time, `UTC` as offset, signed years of any length, one-digit
fields and any number of fraction digits, of which it keeps nine.
-/

namespace StreamControl

structure Timestamp where
  year : Int
  month : Nat
  day : Nat
  hour : Nat
  minute : Nat
  second : Nat
  nanos : Nat
  deriving DecidableEq, Repr, Inhabited

namespace Timestamp

def isLeapYear (year : Int) : Bool := year % 4 = 0 && (year % 100 ≠ 0 || year % 400 = 0)

def daysIn (year : Int) (month : Nat) : Nat :=
  if month = 2 then if isLeapYear year then 29 else 28
  else if month = 4 ∨ month = 6 ∨ month = 9 ∨ month = 11 then 30
  else 31

def minYear : Int := -262143
def maxYear : Int := 262142

/-- The values that name a moment. -/
structure Valid (t : Timestamp) : Prop where
  year : minYear ≤ t.year ∧ t.year ≤ maxYear
  month : 1 ≤ t.month ∧ t.month ≤ 12
  day : 1 ≤ t.day ∧ t.day ≤ daysIn t.year t.month
  hour : t.hour ≤ 23
  minute : t.minute ≤ 59
  second : t.second ≤ 60
  nanos : t.nanos < 1000000000

instance (t : Timestamp) : Decidable t.Valid :=
  decidable_of_iff
    ((minYear ≤ t.year ∧ t.year ≤ maxYear) ∧ (1 ≤ t.month ∧ t.month ≤ 12) ∧
      (1 ≤ t.day ∧ t.day ≤ daysIn t.year t.month) ∧ t.hour ≤ 23 ∧ t.minute ≤ 59 ∧ t.second ≤ 60 ∧
      t.nanos < 1000000000)
    ⟨fun ⟨h₁, h₂, h₃, h₄, h₅, h₆, h₇⟩ => ⟨h₁, h₂, h₃, h₄, h₅, h₆, h₇⟩,
      fun ⟨h₁, h₂, h₃, h₄, h₅, h₆, h₇⟩ => ⟨h₁, h₂, h₃, h₄, h₅, h₆, h₇⟩⟩

/-- The same time on the day before. -/
def dayBefore (t : Timestamp) : Timestamp :=
  if 1 < t.day then { t with day := t.day - 1 }
  else if 1 < t.month then { t with month := t.month - 1, day := daysIn t.year (t.month - 1) }
  else { t with year := t.year - 1, month := 12, day := 31 }

/-- The same time on the day after. -/
def dayAfter (t : Timestamp) : Timestamp :=
  if t.day < daysIn t.year t.month then { t with day := t.day + 1 }
  else if t.month < 12 then { t with month := t.month + 1, day := 1 }
  else { t with year := t.year + 1, month := 1, day := 1 }

/-- The moment in UTC that a clock ahead of UTC by `minutes` (less than a day) shows as `t`. -/
def ahead (minutes : Int) (t : Timestamp) : Timestamp :=
  let total := (t.hour * 60 + t.minute : Int) - minutes
  let inDay := (total % 1440).toNat
  let shifted := { t with hour := inDay / 60, minute := inDay % 60 }
  if total < 0 then shifted.dayBefore
  else if 1440 ≤ total then shifted.dayAfter
  else shifted

/-! ## Writing -/

/-- A number with leading zeros up to a width. -/
def padded (width n : Nat) : List Char :=
  let ds := Nat.toDigits 10 n
  List.replicate (width - ds.length) '0' ++ ds

def yearText (year : Int) : List Char :=
  if 0 ≤ year ∧ year ≤ 9999 then padded 4 year.toNat
  else (if year < 0 then '-' else '+') :: padded 4 year.natAbs

def fractionText (nanos : Nat) : List Char :=
  if nanos = 0 then []
  else if nanos % 1000000 = 0 then '.' :: padded 3 (nanos / 1000000)
  else if nanos % 1000 = 0 then '.' :: padded 6 (nanos / 1000)
  else '.' :: padded 9 nanos

/-- The text up to the offset. -/
def localChars (t : Timestamp) : List Char :=
  yearText t.year ++ '-' :: padded 2 t.month ++ '-' :: padded 2 t.day ++ 'T' :: padded 2 t.hour ++
    ':' :: padded 2 t.minute ++ ':' :: padded 2 t.second ++ fractionText t.nanos

/-- Stored text: the offset is `Z`. -/
def toString (t : Timestamp) : String := String.ofList (t.localChars ++ ['Z'])

/-- Listed text: the offset is `+00:00`. -/
def toListing (t : Timestamp) : String := String.ofList (t.localChars ++ "+00:00".toList)

/-! ## Reading -/

def number (digits : List Char) : Nat := digits.foldl (fun n c => 10 * n + (c.toNat - '0'.toNat)) 0

/-- One to `most` decimal digits. -/
def readNumber? (most : Nat) (cs : List Char) : Option (Nat × List Char) :=
  let digits := (cs.take most).takeWhile Char.isDigit
  if digits.isEmpty then none else some (number digits, cs.drop digits.length)

/-- A field behind optional blanks. -/
def readField? (most : Nat) (cs : List Char) : Option (Nat × List Char) :=
  readNumber? most (skipBlanks cs)

/-- A year: up to four digits, or a sign and any number of digits. -/
def readYear? (cs : List Char) : Option (Int × List Char) :=
  match skipBlanks cs with
  | '-' :: rest => (fun (n, r) => (-(n : Int), r)) <$> readNumber? rest.length rest
  | '+' :: rest => (fun (n, r) => ((n : Int), r)) <$> readNumber? rest.length rest
  | rest => (fun (n, r) => ((n : Int), r)) <$> readNumber? 4 rest

/-- A separator behind optional blanks. -/
def readMark? (mark : Char) (cs : List Char) : Option (List Char) :=
  match skipBlanks cs with
  | c :: rest => if c = mark then some rest else none
  | [] => none

/-- The nanoseconds of an optional fraction. -/
def readFraction? : List Char → Option (Nat × List Char)
  | '.' :: rest => do
    let digits := (rest.take 9).takeWhile Char.isDigit
    if digits.isEmpty then none
    else some (number digits * Nat.pow 10 (9 - digits.length),
      (rest.drop digits.length).dropWhile Char.isDigit)
  | cs => some (0, cs)

/-- The sign of an offset. -/
def readSign? : List Char → Option (Int × List Char)
  | '+' :: rest => some (1, rest)
  | '-' :: rest => some (-1, rest)
  | '\u2212' :: rest => some (-1, rest)
  | _ => none

/-- An offset in minutes. -/
def readOffset? (cs : List Char) : Option (Int × List Char) :=
  let cs := skipBlanks cs
  if (cs.take 3).map Char.toUpper = ['U', 'T', 'C'] then some (0, cs.drop 3)
  else match cs with
  | 'Z' :: rest => some (0, rest)
  | 'z' :: rest => some (0, rest)
  | cs => do
    let (sign, cs) ← readSign? cs
    match cs with
    | h₁ :: h₂ :: cs =>
      if h₁.isDigit && h₂.isDigit then
        match cs.dropWhile (fun c => c = ':' || isBlank c) with
        | m₁ :: m₂ :: cs =>
          if m₁.isDigit && m₂.isDigit && m₁ ≤ '5' then
            some (sign * (60 * number [h₁, h₂] + number [m₁, m₂] : Nat), cs)
          else none
        | _ => none
      else none
    | _ => none

def ofChars? (cs : List Char) : Option Timestamp := do
  let (year, cs) ← readYear? cs
  let (month, cs) ← readField? 2 (← readMark? '-' cs)
  let (day, cs) ← readField? 2 (← readMark? '-' cs)
  let cs ← match cs with
    | 'T' :: rest => some rest
    | 't' :: rest => some rest
    | ' ' :: rest => some rest
    | _ => none
  let (hour, cs) ← readField? 2 cs
  let (minute, cs) ← readField? 2 (← readMark? ':' cs)
  let (second, cs) ← readField? 2 (← readMark? ':' cs)
  let (nanos, cs) ← readFraction? cs
  let (offset, cs) ← readOffset? cs
  let shown : Timestamp := { year, month, day, hour, minute, second, nanos }
  let moment := shown.ahead offset
  if (skipBlanks cs).isEmpty ∧ shown.Valid ∧ moment.Valid ∧ offset.natAbs < 1440 then some moment
  else none

def ofString? (s : String) : Option Timestamp := ofChars? s.toList

end Timestamp

end StreamControl
