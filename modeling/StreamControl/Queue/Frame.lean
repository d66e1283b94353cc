import StreamControl.Error
import StreamControl.Form.Request

/-!
# Log frames

A log is a run of frames. A frame holds the offset of a request in eight bytes, the length of its
text in four, both with the most significant byte first, and the text.

`Frame.scan` reads a log back. It stops where the bytes end within a frame; what follows the last
whole frame is torn and will be cut off. A whole frame with an offset out of order, or with a text
that is no request, is an error.
-/

namespace StreamControl

/-- The last `count` bytes of a number, most significant first. -/
def bigEndian : Nat → Nat → Bytes
  | 0, _ => []
  | count + 1, n => bigEndian count (n / 256) ++ [n.toUInt8]

/-- The number that bytes stand for, most significant first. -/
def ofBigEndian (bytes : Bytes) : Nat := bytes.foldl (fun n b => 256 * n + b.toNat) 0

namespace Frame

def headerLength : Nat := 12

def encode (offset : Nat) (text : Bytes) : Bytes :=
  bigEndian 8 offset ++ bigEndian 4 text.length ++ text

/-- The frame of a request. -/
def ofRequest (item : Queued Float) : Bytes := encode item.offset item.request.toJson.write

/-- The request that a text stands for. -/
def request? (text : Bytes) : Option (Request Float) := Json.decode? Request.ofJson? text

/-- What a log holds. -/
structure Scan where
  entries : List (Queued Float)
  last : Option Nat
  /-- How many bytes the whole frames take. -/
  valid : Nat

/-- Reads the frames from `position` on, the last offset before it being `last`. -/
def scanFrom (position : Nat) (last : Option Nat) (bytes : Bytes) : Except QueueError Scan :=
  if _h : bytes.length < headerLength then .ok ⟨[], last, position⟩
  else
    let offset := ofBigEndian (bytes.take 8)
    let length := ofBigEndian ((bytes.drop 8).take 4)
    let body := bytes.drop headerLength
    if body.length < length then .ok ⟨[], last, position⟩
    else
      match last.filter (offset ≤ ·) with
      | some before => .error (.corrupt position s!"offset {offset} follows {before}")
      | none =>
        match request? (body.take length) with
        | none => .error (.corrupt position "unreadable request")
        | some request =>
          (fun scan => { scan with entries := ⟨offset, request⟩ :: scan.entries }) <$>
            scanFrom (position + headerLength + length) (some offset) (body.drop length)
termination_by bytes.length
decreasing_by simp [headerLength] at *; omega

/-- The whole frames at the start of some bytes, whatever they hold, and the bytes behind them. -/
def split (bytes : Bytes) : List (Nat × Bytes) × Bytes :=
  if _h : bytes.length < headerLength then ([], bytes)
  else
    let length := ofBigEndian ((bytes.drop 8).take 4)
    let body := bytes.drop headerLength
    if body.length < length then ([], bytes)
    else
      let (frames, rest) := split (body.drop length)
      ((ofBigEndian (bytes.take 8), body.take length) :: frames, rest)
termination_by bytes.length
decreasing_by simp [headerLength] at *; omega

def scan (bytes : Bytes) : Except QueueError Scan := scanFrom 0 none bytes

end Frame

end StreamControl
