import StreamControl.Notifier.Waiters
import StreamControl.Simulation.Turn

/-!
# Time

The world is at rest when nobody can take a turn; only then does the clock move, and to the next
time that somebody waits for.
-/

namespace StreamControl

namespace Simulation

namespace World

/-- Takes turns until the world is at rest. -/
def rest : Nat → World → World
  | 0, w => w
  | fuel + 1, w =>
    match w.turn? with
    | none => w
    | some w => rest fuel w

/-- More turns than any world takes at one time of the clock, unless it never comes to rest. -/
def patience : Nat := 1000000

def settle (w : World) : World := rest patience w

/-- The times that somebody waits for. -/
def times (w : World) : List Nat :=
  let ofAlarm (a : Option Alarm) : List Nat := a.toList.map (·.due)
  (w.jobs.filterMap fun job => match job.progress with
    | .asleep due _ => some due
    | _ => none) ++
  (w.watchings.flatMap fun x => x.watcher.deadline :: ofAlarm x.alarm) ++
  w.runs.flatMap fun r =>
    (match r.doing with
      | .sleeping due => [due]
      | .serving alarm => ofAlarm alarm
      | .beginning => []) ++ r.pipeline.attempts.filterMap (·.due?)

/-- The next time that somebody waits for. -/
def nextTime? (w : World) : Option Nat := (w.times.filter (w.clock < ·)).min?

/-- Lets time pass until something holds of the world at rest, and not beyond a limit. Every round
moves the clock by a millisecond at least. -/
def passUntil (stop : World → Bool) (limit : Nat) : Nat → World → World
  | 0, w => w
  | fuel + 1, w =>
    let w := w.settle
    if stop w then w
    else
      match w.nextTime?.filter (· ≤ limit) with
      | none => { w with clock := max w.clock limit }.settle
      | some time => passUntil stop limit fuel { w with clock := time }

/-- Lets time pass until something holds, for a limited time. -/
def await (w : World) (stop : World → Bool) (ms : Nat) : World :=
  passUntil stop (w.clock + ms) (ms + 2) w

/-- Lets so much time pass. What is due at its very end happens. -/
def advance (w : World) (ms : Nat) : World := w.await (fun _ => false) (min ms longestAdvance)

end World

end Simulation

end StreamControl
