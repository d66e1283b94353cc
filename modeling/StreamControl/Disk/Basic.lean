import StreamControl.Disk.Path
import StreamControl.Program
import StreamControl.Text.Utf8

/-!
# Disks

A disk holds file objects and a tree of names. A name stands for a directory or for a file object; a
handle stands for a file object whatever happens to its name. Renaming a file over another leaves
the other object to those who hold a handle on it, and to nobody else.

A path is followed piece by piece, and everything on the way has to be a directory that is there
(`Disk.locate`). It ends at a place, where something may stand or be made.

`DiskCall` is what a program may ask of a disk, one step at a time, and `Disk.serve` is the disk
that never fails.
-/

namespace StreamControl

inductive IoError
  | notFound
  | isDirectory
  | notDirectory
  | exists
  | nameTooLong
  /-- A path with a character that no name may have. -/
  | badName
  | notText
  /-- A failure of the device. -/
  | device
  deriving DecidableEq, Repr

def IoError.message : IoError → String
  | .notFound => "No such file or directory (os error 2)"
  | .isDirectory => "Is a directory (os error 21)"
  | .notDirectory => "Not a directory (os error 20)"
  | .exists => "File exists (os error 17)"
  | .nameTooLong => "File name too long (os error 36)"
  | .badName => "file name contained an unexpected NUL byte"
  | .notText => "stream did not contain valid UTF-8"
  | .device => "Input/output error (os error 5)"

/-- An open file: the object, and where the next write goes. -/
structure Handle where
  file : Nat
  position : Nat
  deriving DecidableEq, Repr, Inhabited

inductive Node
  | directory
  | file (object : Nat)
  deriving DecidableEq, Repr

/-- Where something stands or may stand: the names down to it from the working directory, from one
above, or from the root, which is called by a slash. -/
abbrev Place := List String

structure Disk where
  nodes : List (Place × Node)
  /-- The contents of the file objects, by number. -/
  objects : List Bytes
  deriving DecidableEq, Repr

inductive DiskCall
  /-- Makes a directory and those above it. -/
  | makeDirs (path : Path)
  | isThere (path : Path)
  | read (path : Path)
  /-- Opens a file as it is; makes an empty one first if asked to. -/
  | openFile (path : Path) (create : Bool)
  /-- Opens an empty file, dropping what it held. -/
  | create (path : Path)
  | length (handle : Handle)
  | truncate (handle : Handle) (length : Nat)
  /-- Waits until the file's contents are durable. -/
  | sync (handle : Handle)
  /-- Writes at the handle's position and moves it. -/
  | write (handle : Handle) (bytes : Bytes)
  /-- Writes at the end of the file, wherever that is. -/
  | append (handle : Handle) (bytes : Bytes)
  | rename (source target : Path)
  deriving DecidableEq, Repr

/-- What a call is answered with. A write answers with the handle behind what was written even if
it failed. -/
def DiskCall.Reply : DiskCall → Type
  | .isThere _ => Bool
  | .read _ => Except IoError Bytes
  | .openFile _ _ | .create _ => Except IoError Handle
  | .length _ => Except IoError Nat
  | .write _ _ => Handle × Option IoError
  | .makeDirs _ | .truncate _ _ | .sync _ | .append _ _ | .rename _ _ => Except IoError Unit

/-- Programs over a disk. -/
abbrev DiskProgram (α : Type) := Program DiskCall DiskCall.Reply α

namespace DiskProgram

def makeDirs (path : Path) : DiskProgram (Except IoError Unit) := .perform (DiskCall.makeDirs path)
def isThere (path : Path) : DiskProgram Bool := .perform (DiskCall.isThere path)
def read (path : Path) : DiskProgram (Except IoError Bytes) := .perform (DiskCall.read path)

def openFile (path : Path) (create : Bool) : DiskProgram (Except IoError Handle) :=
  .perform (DiskCall.openFile path create)

def create (path : Path) : DiskProgram (Except IoError Handle) := .perform (DiskCall.create path)
def length (h : Handle) : DiskProgram (Except IoError Nat) := .perform (DiskCall.length h)

def truncate (h : Handle) (n : Nat) : DiskProgram (Except IoError Unit) :=
  .perform (DiskCall.truncate h n)

def sync (h : Handle) : DiskProgram (Except IoError Unit) := .perform (DiskCall.sync h)

def write (h : Handle) (bytes : Bytes) : DiskProgram (Handle × Option IoError) :=
  .perform (DiskCall.write h bytes)

def append (h : Handle) (bytes : Bytes) : DiskProgram (Except IoError Unit) :=
  .perform (DiskCall.append h bytes)

def rename (source target : Path) : DiskProgram (Except IoError Unit) :=
  .perform (DiskCall.rename source target)

end DiskProgram

namespace Disk

def empty : Disk := ⟨[], []⟩

/-! ## Places -/

/-- The root. -/
def root : Place := ["/"]

/-- Whether a place is the working directory or one above it. -/
def isOutward (place : Place) : Bool := place.all (· = "..")

/-- The place of the directory around a place. -/
def outward (place : Place) : Place :=
  if isOutward place then ".." :: place else if place = root then place else place.dropLast

def node? (d : Disk) (place : Place) : Option Node :=
  if isOutward place || place = root then some .directory
  else (d.nodes.find? (·.1 = place)).map (·.2)

/-- The most bytes that a name may have. -/
def maxName : Nat := 255

/-- The most bytes that the text of a path may have. -/
def maxPath : Nat := 4095

/-- Where a piece of a path leads from a place, which has to be a directory. -/
def step (d : Disk) (place : Place) (piece : String) : Except IoError Place :=
  match d.node? place with
  | none => .error .notFound
  | some (.file _) => .error .notDirectory
  | some .directory =>
    if Path.isIdle piece then .ok place
    else if piece = ".." then .ok (outward place)
    else if maxName < piece.utf8ByteSize then .error .nameTooLong
    else .ok (place ++ [piece])

/-- The place that a path leads to. -/
def locate (d : Disk) (path : Path) : Except IoError Place :=
  if path.any (·.contains '\x00') then .error .badName
  else if maxPath < path.toText.utf8ByteSize then .error .nameTooLong
  else if path.isAbsolute then path.tail.foldlM d.step root
  else path.foldlM d.step []

/-- What a path names. -/
def lookup (d : Disk) (path : Path) : Except IoError Node :=
  match d.locate path with
  | .error e => .error e
  | .ok place =>
    match d.node? place with
    | some n => .ok n
    | none => .error .notFound

/-- Whether a path names a directory. -/
def isDirectory (d : Disk) (path : Path) : Bool :=
  match d.lookup path with
  | .ok .directory => true
  | _ => false

/-! ## Objects -/

def content (d : Disk) (object : Nat) : Bytes := d.objects.getD object []

def setContent (d : Disk) (object : Nat) (bytes : Bytes) : Disk :=
  { d with objects := d.objects.set object bytes }

/-- Gives a place a meaning, instead of the one it had. -/
def setNode (d : Disk) (place : Place) (node : Node) : Disk :=
  { d with nodes := (place, node) :: d.nodes.filter (·.1 ≠ place) }

def removeNode (d : Disk) (place : Place) : Disk :=
  { d with nodes := d.nodes.filter (·.1 ≠ place) }

/-- Makes an empty file object at a place. -/
def newFile (d : Disk) (place : Place) : Disk × Handle :=
  ({ d.setNode place (.file d.objects.length) with objects := d.objects ++ [[]] },
    ⟨d.objects.length, 0⟩)

/-- Replaces the bytes from a position on by others; a gap in front is filled with zeros. -/
def splice (old : Bytes) (position : Nat) (bytes : Bytes) : Bytes :=
  old.take position ++ List.replicate (position - old.length) 0 ++ bytes ++
    old.drop (position + bytes.length)

/-- Brings bytes to a length, with zeros at the end where there are too few. -/
def resize (old : Bytes) (length : Nat) : Bytes :=
  old.take length ++ List.replicate (length - old.length) 0

/-! ## Calls -/

/-- Makes a directory. The one around it has to be there. -/
def makeDir (d : Disk) (path : Path) : Disk × Except IoError Unit :=
  match d.locate path.withoutSlashes with
  | .error e => (d, .error e)
  | .ok place =>
    match d.node? place with
    | some _ => (d, .error .exists)
    | none => (d.setNode place .directory, .ok ())

/-- Makes a directory unless it is there. -/
def ensureDir (d : Disk) (path : Path) : Disk × Except IoError Unit :=
  match d.makeDir path with
  | (d, .error .exists) => (d, if d.isDirectory path then .ok () else .error .exists)
  | result => result

/-- Makes a directory, and up to so many of those written in front of it where they are missing. -/
def makeDirsUp : Nat → Disk → Path → Disk × Except IoError Unit
  | 0, d, _ => (d, .ok ())
  | count + 1, d, path =>
    if path.isBlank then (d, .ok ())
    else
      match d.ensureDir path with
      | (d, .error .notFound) =>
        match makeDirsUp count d path.parent with
        | (d, .ok ()) => d.ensureDir path
        | result => result
      | result => result

/-- Makes a directory, and those that are written in front of it where they are missing. Each is
written with fewer pieces than the one behind it (`Path.length_parent_lt`). -/
def makeDirs (d : Disk) (path : Path) : Disk × Except IoError Unit :=
  makeDirsUp path.length d path

def read (d : Disk) (path : Path) : Except IoError Bytes :=
  match d.lookup path with
  | .ok (.file object) => .ok (d.content object)
  | .ok .directory => .error .isDirectory
  | .error e => .error e

def openFile (d : Disk) (path : Path) (create : Bool) : Disk × Except IoError Handle :=
  match d.locate path with
  | .error e => (d, .error e)
  | .ok place =>
    match d.node? place with
    | some (.file object) => (d, .ok ⟨object, 0⟩)
    | some .directory => (d, .error .isDirectory)
    | none =>
      if create then
        let (d', h) := d.newFile place
        (d', .ok h)
      else (d, .error .notFound)

def create (d : Disk) (path : Path) : Disk × Except IoError Handle :=
  match d.openFile path true with
  | (d', .ok h) => (d'.setContent h.file [], .ok h)
  | result => result

/-- Moves a file to another name; a directory is never replaced. -/
def rename (d : Disk) (source target : Path) : Disk × Except IoError Unit :=
  match d.locate source, d.locate target with
  | .error e, _ | _, .error e => (d, .error e)
  | .ok source, .ok target =>
    match d.node? source, d.node? target with
    | none, _ => (d, .error .notFound)
    | _, some .directory => (d, .error .isDirectory)
    | some node, _ => ((d.removeNode source).setNode target node, .ok ())

/-- The disk that does what it is asked. -/
def serve : (c : DiskCall) → Disk → Disk × c.Reply
  | .makeDirs path, d => d.makeDirs path
  | .isThere path, d => (d, (d.lookup path).isOk)
  | .read path, d => (d, d.read path)
  | .openFile path create, d => d.openFile path create
  | .create path, d => d.create path
  | .length h, d => (d, .ok (d.content h.file).length)
  | .truncate h length, d => (d.setContent h.file (resize (d.content h.file) length), .ok ())
  | .sync _, d => (d, .ok ())
  | .write h bytes, d =>
    (d.setContent h.file (splice (d.content h.file) h.position bytes),
      ⟨h.file, h.position + bytes.length⟩, none)
  | .append h bytes, d => (d.setContent h.file (d.content h.file ++ bytes), .ok ())
  | .rename source target, d => d.rename source target

end Disk

end StreamControl
