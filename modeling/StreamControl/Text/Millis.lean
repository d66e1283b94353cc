/-!
# Durations in messages

A duration of whole milliseconds is shown in its largest unit: nothing as `0ns`, less than a second
in `ms`, all else in `s` with the fraction's trailing zeros dropped.
-/

namespace StreamControl

/-- The text of a number of milliseconds. -/
def millisText (ms : Nat) : String :=
  if ms = 0 then "0ns"
  else if ms < 1000 then s!"{ms}ms"
  else
    let fraction := ms % 1000
    let digits :=
      if fraction = 0 then ""
      else if fraction % 100 = 0 then s!".{fraction / 100}"
      else if fraction % 10 = 0 then s!".{fraction / 100}{fraction / 10 % 10}"
      else s!".{fraction / 100}{fraction / 10 % 10}{fraction % 10}"
    s!"{ms / 1000}{digits}s"

end StreamControl
