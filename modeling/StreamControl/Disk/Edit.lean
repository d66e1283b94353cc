import StreamControl.Disk.Basic

/-!
# Editing a disk

What somebody at a prompt does to the files: write, append, cut, remove and list them.
-/

namespace StreamControl

namespace Disk

/-- Changes the content of a file, making an empty one first if it is not there. -/
def editFile (d : Disk) (path : Path) (f : Bytes → Bytes) : Disk × Except IoError Unit :=
  match d.openFile path true with
  | (d, .error e) => (d, .error e)
  | (d, .ok h) => (d.setContent h.file (f (d.content h.file)), .ok ())

/-- Writes a file, and makes the directories in front of it if need be. -/
def writeFile (d : Disk) (path : Path) (bytes : Bytes) : Disk × Except IoError Unit :=
  match d.makeDirs path.parent with
  | (d, .error e) => (d, .error e)
  | (d, .ok ()) => d.editFile path fun _ => bytes

def appendFile (d : Disk) (path : Path) (bytes : Bytes) : Disk × Except IoError Unit :=
  d.editFile path (· ++ bytes)

/-- Drops bytes from the end of a file. -/
def cutFile (d : Disk) (path : Path) (count : Nat) : Disk × Except IoError Unit :=
  d.editFile path fun bytes => bytes.take (bytes.length - count)

/-- Removes the name of a file. -/
def removeFile (d : Disk) (path : Path) : Disk × Except IoError Unit :=
  match d.locate path with
  | .error e => (d, .error e)
  | .ok place =>
    match d.node? place with
    | some (.file _) => (d.removeNode place, .ok ())
    | some .directory => (d, .error .isDirectory)
    | none => (d, .error .notFound)

/-- The names at a place, in order. -/
def names (d : Disk) (place : Place) : List String :=
  (d.nodes.filterMap fun n => if n.1.dropLast = place then n.1.getLast? else none).mergeSort

end Disk

end StreamControl
