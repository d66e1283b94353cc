import StreamControl.CommandLine.Help
import StreamControl.Form.Settings
import StreamControl.Ledger.Failures
import StreamControl.Queue.File

/-!
# Commands

The commands inspect a queue directory, a ledger or a configuration file, and answer with lines of
output. They are programs over a disk.
-/

namespace StreamControl

namespace CommandLine

/-- What a command leaves: lines for the standard output, or the line that says what went wrong. -/
structure Report where
  output : List String
  failure : Option String
  deriving DecidableEq, Repr

def Report.ok (output : List String) : Report := ⟨output, none⟩
def Report.failed (text : String) : Report := ⟨[], some text⟩

/-- What goes to the standard output. -/
def Report.text (r : Report) : String := String.join (r.output.map (· ++ "\n"))

/-- The first line of a text, without a carriage return at its end. -/
def firstLine (text : String) : String :=
  let line := text.toList.takeWhile (· ≠ '\n')
  String.ofList (if line.getLast? = some '\r' then line.dropLast else line)

/-- The line for the standard error. -/
def Report.errorLine (r : Report) : String := firstLine (r.failure.elim "" ("Error: " ++ ·))

def Report.exitCode (r : Report) : Nat := if r.failure.isSome then 1 else 0

/-- The text with blanks in front of it up to a width. -/
def padLeft (width : Nat) (s : String) : String :=
  String.ofList (List.replicate (width - s.length) ' ') ++ s

/-- Opens the queue in a directory that is there, and goes on with it. -/
def withQueue (directory : String) (use : FileQueue → DiskProgram Report) : DiskProgram Report := do
  if ← DiskProgram.isThere (Path.ofText directory) then
    match ← (FileQueue.open { directory }).run with
    | .error _ => pure (.failed s!"Failed to open request queue at {directory}")
    | .ok q => use q
  else pure (.failed s!"no request queue at {directory}")

def statusLines (directory : String) (q : FileQueue) : List String :=
  ["", "Request Queue", String.ofList (List.replicate 60 '='), s!"Path: {directory}",
    s!"  Acknowledged: {q.acknowledged}", s!"  Tail:         {q.tail}",
    s!"  Pending:      {q.pending.length}", s!"  Log bytes:    {q.logBytes}", ""] ++
  if q.pending.isEmpty then ["✓ All requests acknowledged"]
  else [s!"{q.pending.length} request(s) awaiting the pipeline",
    "Run 'sluice pending' to list them"]

/-- A row of the listing of pending requests. -/
def pendingRow (offset request kind stream : String) : String :=
  s!"{padLeft 8 offset}  {padRight 36 request}  {padRight 10 kind}  {stream}"

def pendingLines (json : Bool) (items : List (Queued Float)) : List String :=
  if json then items.map (·.toJson.toText)
  else if items.isEmpty then ["No pending requests"]
  else pendingRow "OFFSET" "REQUEST" "KIND" "STREAM" :: items.map fun item =>
    pendingRow (toString item.offset) item.request.id.toString item.request.kind.name
      item.request.stream.key

def failureLines (json : Bool) (entries : List FailedRequest) : List String :=
  if json then entries.map (·.toJson.toText)
  else if entries.isEmpty then ["No failed requests"]
  else s!"{entries.length} failed request(s)" :: "" :: entries.flatMap fun e =>
    [s!"{e.failedAt.toListing}  {e.request.kind} {e.request.stream} (attempts: {e.attempts.toNat})",
      s!"    request: {e.request.id}", s!"    reason:  {e.reason}"]

def status (directory : String) : DiskProgram Report :=
  withQueue directory fun q => pure (.ok (statusLines directory q))

def pending (directory : String) (json : Bool) : DiskProgram Report :=
  withQueue directory fun q => pure (.ok (pendingLines json q.pending))

def compact (directory : String) : DiskProgram Report :=
  withQueue directory fun before => do
    match ← before.compact with
    | (_, .error _) => pure (.failed "Failed to compact request queue")
    | (after, .ok ()) =>
      pure (.ok [s!"Compacted {directory}: {before.logBytes} -> {after.logBytes} bytes"])

def failures (ledger : String) (json : Bool) : DiskProgram Report := do
  match ← FailureLedger.load ledger with
  | .error _ => pure (.failed s!"Failed to read ledger {ledger}")
  | .ok entries => pure (.ok (failureLines json entries))

/-- Settings from a file, checked. -/
def loadSettings? (path : String) : DiskProgram (Option ControllerSettings) := do
  match ← DiskProgram.read (Path.ofText path) with
  | .error _ => pure none
  | .ok bytes =>
    pure (if (ofUtf8? bytes).isSome then (ControllerSettings.ofText bytes).toOption else none)

def checkConfig (path : String) : DiskProgram Report := do
  match ← loadSettings? path with
  | none => pure (.failed s!"Invalid configuration {path}")
  | some s => pure (.ok [s!"✓ {path} is valid", s.toJson.toPrettyText])

def runCommand (directory : String) : Command → DiskProgram Report
  | .status => status directory
  | .pending json => pending directory json
  | .failures ledger json => failures ledger json
  | .compact => compact directory
  | .checkConfig path => checkConfig path

def run (args : Arguments) : DiskProgram Report :=
  match args.task with
  | .run command => runCommand args.queueDirectory command
  | .help topic => pure (.ok topic.lines)
  | .version verb => pure (.ok [version verb])

end CommandLine

end StreamControl
