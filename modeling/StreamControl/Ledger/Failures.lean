import StreamControl.Disk.Basic
import StreamControl.Error
import StreamControl.Ledger.Entry
import StreamControl.Text.Blank
import StreamControl.Text.Pieces

/-!
# The failure ledger

The newest failures in memory, up to a capacity, and if the ledger has a file all of them there, one
JSON text to a line. Reading a file skips blank lines and lines that are no entry, such as one that
was cut off; a line whose bytes are no text makes the whole file unreadable.
-/

namespace StreamControl

structure FailureLedger where
  capacity : Nat
  /-- The entries in memory, oldest first. -/
  entries : List FailedRequest
  /-- The name of the file as it was given, and a handle on it. -/
  file : Option (String × Handle)
  deriving Repr

namespace FailureLedger

def defaultCapacity : Nat := 1024

def inMemory (capacity : Nat) : FailureLedger := ⟨max capacity 1, [], none⟩

/-- Adds an entry in memory; the oldest one gives way in a full ledger. -/
def push (ledger : FailureLedger) (entry : FailedRequest) : FailureLedger :=
  { ledger with
    entries :=
      (if ledger.entries.length = ledger.capacity then ledger.entries.drop 1 else ledger.entries) ++
        [entry] }

/-- The most recent entry of a request. -/
def find? (ledger : FailureLedger) (id : RequestId) : Option FailedRequest :=
  ledger.entries.reverse.find? (·.request.id = id)

/-! ## Lines -/

/-- The byte that ends a line. -/
def lineEnd : UInt8 := 10

/-- A line without the carriage return that may stand at its end. -/
def chomp (line : Bytes) : Bytes := if line.getLast? = some 13 then line.dropLast else line

/-- The lines of a file. Bytes behind the last line end are a line too, taken as they are. -/
def lines (bytes : Bytes) : List Bytes :=
  let found := pieces lineEnd bytes
  found.dropLast.map chomp ++ found.getLast?.toList.filter (!·.isEmpty)

/-- The line of an entry, with its end. -/
def lineOf (entry : FailedRequest) : Bytes := entry.toJson.write ++ [lineEnd]

/-- What a line of text holds; nothing if it is blank or no entry. -/
def entryOf? (line : String) : Option FailedRequest :=
  if (skipBlanks line.toList).isEmpty then none
  else Json.decode? FailedRequest.ofJson? (utf8 line)

/-- The entries of a file, or nothing if some line is no text. -/
def entriesOf? (bytes : Bytes) : Option (List FailedRequest) :=
  (fun texts => texts.filterMap entryOf?) <$> (lines bytes).mapM ofUtf8?

/-! ## Files -/

/-- The entries of a file; a file that is not there has none. -/
def load (name : String) : DiskProgram (Except PipelineError (List FailedRequest)) := do
  match ← DiskProgram.read (Path.ofText name) with
  | .error .notFound => pure (.ok [])
  | .error e => pure (.error (.ledger e.message))
  | .ok bytes =>
    match entriesOf? bytes with
    | some entries => pure (.ok entries)
    | none => pure (.error (.ledger IoError.notText.message))

/-- A ledger that appends to a file, with the newest of the file's entries in memory. -/
def «open» (name : String) (capacity : Nat) : DiskProgram (Except PipelineError FailureLedger) := do
  match ← DiskProgram.makeDirs (Path.ofText name).parent with
  | .error e => pure (.error (.ledger e.message))
  | .ok () =>
    match ← load name with
    | .error e => pure (.error e)
    | .ok entries =>
      match ← DiskProgram.openFile (Path.ofText name) true with
      | .error e => pure (.error (.ledger e.message))
      | .ok handle =>
        pure (.ok { entries.foldl push (inMemory capacity) with file := some (name, handle) })

/-- Adds an entry, to the file first. -/
def record (ledger : FailureLedger) (entry : FailedRequest) :
    DiskProgram (FailureLedger × Except PipelineError Unit) := do
  match ledger.file with
  | none => pure (ledger.push entry, .ok ())
  | some (_, handle) =>
    match ← DiskProgram.append handle (lineOf entry) with
    | .error e => pure (ledger, .error (.ledger e.message))
    | .ok () => pure (ledger.push entry, .ok ())

end FailureLedger

end StreamControl
