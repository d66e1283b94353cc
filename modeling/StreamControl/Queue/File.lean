import StreamControl.Disk.Basic
import StreamControl.Queue.Frame

/-!
# The queue in files

A directory holds a log of requests and a cursor. The cursor says up to where the log is
acknowledged, and below which offset nothing is appended any more; it is replaced as a whole by
writing a new file beside it and renaming that. Requests that are not acknowledged are also kept in
memory.

Opening a directory repairs a torn end of the log. Compacting writes the unacknowledged requests to
a new log and puts it in place of the old one; the cursor is saved first, so that offsets that leave
the log are not given out again.

Every operation is a program over the disk, and returns the queue as it is left even if it fails.
-/

namespace StreamControl

/-- What the cursor file holds. -/
structure Cursor where
  acknowledged : Nat
  /-- A lower bound for the next offset. -/
  nextOffset : Nat
  deriving DecidableEq, Repr, Inhabited

namespace Cursor

def toJson (c : Cursor) : Json :=
  .record [("acknowledged", .nat c.acknowledged), ("next_offset", .nat c.nextOffset)]

def ofJson? (v : Json) : Option Cursor := do
  match ← Json.record? ["acknowledged", "next_offset"] v with
  | [acknowledged, nextOffset] =>
    some ⟨← Json.required? Json.nat64? acknowledged, ← Json.required? Json.nat64? nextOffset⟩
  | _ => none

end Cursor

structure FileQueue where
  settings : FileQueueSettings
  /-- The log as it was last opened. -/
  log : Handle
  cursor : Cursor
  nextOffset : Nat
  acknowledged : Nat
  /-- The offset behind the last request that readers see. -/
  tail : Nat
  /-- The requests that are not acknowledged, in order. -/
  pending : List (Queued Float)
  logBytes : Nat
  deriving Repr, Inhabited

namespace FileQueue

/-- Programs that may fail as a queue does. -/
abbrev Action (α : Type) := ExceptT QueueError (Program DiskCall DiskCall.Reply) α

/-- A disk step whose failure is the queue's. -/
def step {α : Type} (p : DiskProgram (Except IoError α)) : Action α :=
  ExceptT.mk (p.andThen fun r => .done (r.mapError fun e => .io e.message))

/-- A disk step that cannot fail. -/
def sure {α : Type} (p : DiskProgram α) : Action α := ExceptT.mk (p.andThen fun a => .done (.ok a))

def write (h : Handle) (bytes : Bytes) : Action Handle :=
  step ((DiskProgram.write h bytes).andThen fun (h, e) => .done (e.elim (.ok h) .error))

/-- The handle with its position at the end of the file. -/
def seekEnd (h : Handle) : Action Handle := do pure { h with position := ← step (.length h) }

def logName : String := "requests.log"
def cursorName : String := "meta.json"

/-- A file in the queue's directory. -/
def fileIn (settings : FileQueueSettings) (name : String) : Path :=
  (Path.ofText settings.directory).child name

/-- The stored cursor; a directory without one starts at zero. -/
def loadCursor (settings : FileQueueSettings) : Action Cursor := do
  let path := fileIn settings cursorName
  if ← sure (.isThere path) then
    let bytes ← step (.read path)
    if (ofUtf8? bytes).isNone then throw (.io IoError.notText.message)
    match Json.decode? (fun _ v => Cursor.ofJson? v) bytes with
    | some cursor => pure cursor
    | none => throw .serialization
  else pure ⟨0, 0⟩

def saveCursor (settings : FileQueueSettings) (cursor : Cursor) : Action Unit := do
  let temporary := fileIn settings (cursorName ++ ".tmp")
  let h ← write (← step (.create temporary)) cursor.toJson.write
  step (.sync h)
  step (.rename temporary (fileIn settings cursorName))

/-- The bytes of the log; a log that is not there has none. -/
def readLog (settings : FileQueueSettings) : Action Bytes := do
  match ← sure (.read (fileIn settings logName)) with
  | .ok bytes => pure bytes
  | .error .notFound => pure []
  | .error e => throw (.io e.message)

/-- The queue that a cursor and a scanned log amount to. Offsets are natural numbers here; the sums
are those of 64 bits as long as the tail is below 2 ^ 64, so that no offset is 2 ^ 64 - 1. -/
def ofScan (settings : FileQueueSettings) (log : Handle) (cursor : Cursor) (scan : Frame.Scan) :
    FileQueue :=
  let next := max (max ((scan.last.map (· + 1)).getD 0) cursor.nextOffset) cursor.acknowledged
  { settings, log, cursor, nextOffset := next, acknowledged := cursor.acknowledged, tail := next
    pending := scan.entries.filter (cursor.acknowledged ≤ ·.offset)
    logBytes := scan.valid }

/-- Opens a directory, making it if need be, and cuts off a torn end of the log. -/
def «open» (settings : FileQueueSettings) : Action FileQueue := do
  step (.makeDirs (Path.ofText settings.directory))
  let cursor ← loadCursor settings
  let scan ← ExceptT.mk (pure (Frame.scan (← readLog settings)))
  let log ← step (.openFile (fileIn settings logName) true)
  if scan.valid < (← step (.length log)) then
    step (.truncate log scan.valid)
    step (.sync log)
  pure (ofScan settings (← seekEnd log) cursor scan)

/-- At most `max` of the pending requests from an offset on. -/
def readFrom (q : FileQueue) (offset max : Nat) : List (Queued Float) :=
  (q.pending.filter (offset ≤ ·.offset)).take max

/-- The queue after an action that returns it, or as it was. -/
def keeping {α : Type} (q : FileQueue) (action : Action (FileQueue × α)) :
    DiskProgram (FileQueue × Except QueueError α) := do
  match ← action.run with
  | .ok (q, a) => pure (q, .ok a)
  | .error e => pure (q, .error e)

/-- The largest length that a frame can state. -/
def maxFrame : Nat := Nat.pow 2 32 - 1

/-- Drops what a failed append may have left behind the last whole frame. -/
def discardPartial (q : FileQueue) (log : Handle) : DiskProgram FileQueue := do
  match ← (do step (.truncate log q.logBytes); seekEnd log : Action Handle).run with
  | .ok log => pure { q with log }
  | .error _ => pure { q with log }

/-- The queue with one more request at its end, once the request's frame is in the log. The offset
that it is given is not 2 ^ 64 - 1. -/
def appended (q : FileQueue) (log : Handle) (request : Request Float) (size : Nat) : FileQueue :=
  { q with
    log
    nextOffset := q.nextOffset + 1
    tail := q.nextOffset + 1
    pending := q.pending ++ [⟨q.nextOffset, request⟩]
    logBytes := q.logBytes + size }

def append (q : FileQueue) (request : Request Float) :
    DiskProgram (FileQueue × Except QueueError Nat) := do
  let text := request.toJson.write
  if text.length > q.settings.maxRequestSize || text.length > maxFrame then
    pure (q, .error (.requestTooLarge text.length q.settings.maxRequestSize))
  else
    let frame := Frame.encode q.nextOffset text
    match ← DiskProgram.write q.log frame with
    | (log, some e) => pure (← discardPartial q log, .error (.io e.message))
    | (log, none) =>
      match ← (if q.settings.syncOnAppend then step (.sync log) else pure () : Action Unit).run with
      | .error e => pure (← discardPartial q log, .error e)
      | .ok () => pure (q.appended log request frame.length, .ok q.nextOffset)

/-- Puts a log of the pending requests in place of the old one. -/
def compact (q : FileQueue) : DiskProgram (FileQueue × Except QueueError Unit) := do
  let temporary := fileIn q.settings (logName ++ ".compact")
  let bytes := q.pending.flatMap Frame.ofRequest
  let written ← (do step (.sync (← write (← step (.create temporary)) bytes)) : Action Unit).run
  match written with
  | .error e => pure (q, .error e)
  | .ok () =>
    let q := { q with cursor := { q.cursor with nextOffset := q.nextOffset } }
    keeping q do
      saveCursor q.settings q.cursor
      step (.rename temporary (fileIn q.settings logName))
      let log ← seekEnd (← step (.openFile (fileIn q.settings logName) false))
      pure ({ q with log, logBytes := bytes.length }, ())

/-- The queue acknowledged up to an offset. -/
def acknowledgedTo (q : FileQueue) (next : Nat) : FileQueue :=
  { q with
    cursor := ⟨next, q.nextOffset⟩
    acknowledged := next
    pending := q.pending.filter (next ≤ ·.offset) }

/-- Acknowledges the requests below an offset, and compacts a log that has grown too long. -/
def acknowledge (q : FileQueue) (next : Nat) :
    DiskProgram (FileQueue × Except QueueError Unit) := do
  if next ≤ q.cursor.acknowledged then pure (q, .ok ())
  else if q.nextOffset < next then pure (q, .error (.invalidAcknowledge next q.nextOffset))
  else
    match ← (saveCursor q.settings ⟨next, q.nextOffset⟩).run with
    | .error e => pure (q, .error e)
    | .ok () =>
      let q := q.acknowledgedTo next
      if q.settings.compactThreshold ≤ q.logBytes then compact q else pure (q, .ok ())

end FileQueue

end StreamControl
