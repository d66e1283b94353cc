import StreamControl.CommandLine.Arguments
import StreamControl.CommandLine.Run

/-!
# The program

Serves the disk calls of a command by the files of the machine, prints its report and ends with its
exit code. Arguments that make no sense end with code two.
-/

namespace StreamControl

namespace Machine

/-- The files that were opened; their numbers are their places. -/
abbrev OpenFiles := IO.Ref (Array IO.FS.Handle)

/-- The error of a disk that an exception stands for. -/
def errorOf : IO.Error → IoError
  | .noFileOrDirectory .. => .notFound
  | _ => .device

/-- A step whose exceptions are part of the reply. -/
def attempted {α : Type} (step : IO α) : IO (Except IoError α) :=
  try pure (.ok (← step)) catch e => pure (.error (errorOf e))

/-- The open file behind a handle. -/
def handleOf (files : OpenFiles) (h : Handle) : IO IO.FS.Handle := do
  match (← files.get)[h.file]? with
  | some handle => pure handle
  | none => throw (.userError "no such handle")

/-- Moves to a position from the start of a file. -/
def seek (handle : IO.FS.Handle) (position : Nat) : IO Unit := do
  handle.rewind
  if 0 < position then discard (handle.read position.toUSize)

/-- Numbers a file that was opened. -/
def keepFile (files : OpenFiles) (handle : IO.FS.Handle) : IO Handle := do
  let opened ← files.get
  files.set (opened.push handle)
  pure ⟨opened.size, 0⟩

/-- Opens a file for reading and writing, and makes it first if it is not there and may be made. -/
def openText (text : String) (create : Bool) : IO IO.FS.Handle := do
  try IO.FS.Handle.mk text .readWrite
  catch e =>
    match e, create with
    | .noFileOrDirectory .., true =>
      discard (IO.FS.Handle.mk text .write)
      IO.FS.Handle.mk text .readWrite
    | _, _ => throw e

/-- Whether something can be opened under a name. -/
def isThereText (text : String) : IO Bool := do
  try
    discard (IO.FS.Handle.mk text .read)
    pure true
  catch _ => pure false

/-- Writes from a position on. -/
def writeAt (handle : IO.FS.Handle) (position : Nat) (bytes : Bytes) : IO Unit := do
  seek handle position
  handle.write ⟨bytes.toArray⟩
  handle.flush

/-- Serves a call by the files of the machine. -/
def serve (files : OpenFiles) : (c : DiskCall) → IO c.Reply
  | .makeDirs path => attempted (IO.FS.createDirAll path.toText)
  | .isThere path => isThereText path.toText
  | .read path => attempted do pure (← IO.FS.readBinFile path.toText).toList
  | .openFile path create => attempted do keepFile files (← openText path.toText create)
  | .create path => attempted do
    discard (IO.FS.Handle.mk path.toText .write)
    keepFile files (← openText path.toText false)
  | .length h => attempted do
    let handle ← handleOf files h
    handle.rewind
    pure (← handle.readBinToEnd).size
  | .truncate h length => attempted do
    let handle ← handleOf files h
    seek handle length
    handle.truncate
  | .sync h => attempted do (← handleOf files h).flush
  | .write h bytes => do
    let position := h.position + bytes.length
    match ← attempted (do writeAt (← handleOf files h) h.position bytes) with
    | .ok () => pure (⟨h.file, position⟩, none)
    | .error e => pure (⟨h.file, position⟩, some e)
  | .append h bytes => attempted do
    let handle ← handleOf files h
    handle.rewind
    discard handle.readBinToEnd
    handle.write ⟨bytes.toArray⟩
    handle.flush
  | .rename source target => attempted (IO.FS.rename source.toText target.toText)

/-- Runs a program on the files of the machine. -/
def run {α : Type} (files : OpenFiles) : DiskProgram α → IO α
  | .done a => pure a
  | .call c k => do run files (k (← serve files c))

end Machine

end StreamControl

def main (args : List String) : IO UInt32 := do
  match StreamControl.CommandLine.Arguments.of? args with
  | none =>
    IO.eprint (String.intercalate "\n" StreamControl.CommandLine.programHelp ++ "\n")
    pure 2
  | some arguments =>
    let program := StreamControl.CommandLine.run arguments
    let report ← StreamControl.Machine.run (← IO.mkRef #[]) program
    IO.print report.text
    unless report.errorLine.isEmpty do IO.eprintln report.errorLine
    pure report.exitCode.toUInt32
