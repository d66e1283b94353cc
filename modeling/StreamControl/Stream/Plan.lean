import StreamControl.Operation.Refusal
import StreamControl.Stream.Record

/-!
# Plans

What a request makes of a stream's record. A plan is pure: it computes the record to be committed,
or says why the request is refused. It leaves phase, owner and version alone; those belong to the
commit.

A scale seals some segments and creates others in their place. `Plan.reshape` is the only way
segments change; a split or a merge is a reshape of one segment, or of two neighbours.
-/

namespace StreamControl

namespace Plan

variable {β : Type} [Bound β]

def update (record : Record β) (request : Request β) : Except (Refusal β) (Record β) :=
  match request.operation with
  | .update configuration =>
    match configuration.flaw? with
    | some flaw => .error (.configuration flaw)
    | none => .ok { record with configuration }
  | _ => .error (.foreign "update" request.kind)

/-- The ranges of the segments to seal, each of them active and named once. -/
def sealedRanges (record : Record β) : List Nat → List Nat → Except (Refusal β) (List (KeyRange β))
  | _, [] => .ok []
  | seen, number :: rest =>
    if seen.contains number then .error (.listedTwice number)
    else match record.segment? number with
      | none => .error (.inactive number)
      | some segment => (segment.range :: ·) <$> sealedRanges record (number :: seen) rest

/-- Segments for the given ranges, numbered from `next`. -/
def created (epoch next : Nat) (ranges : List (KeyRange β)) : List (Segment β) :=
  ranges.mapIdx fun i range => { number := next + i, range, epoch }

/-- Segments in the order of their ranges' starts. -/
def inOrder (segments : List (Segment β)) : List (Segment β) :=
  segments.mergeSort fun a b => (Bound.order a.range.start b.range.start).isLE

/-- The epoch after the given one. Epochs are counted in 32 bits. -/
def nextEpoch (epoch : Nat) : Nat := (epoch + 1) % UInt32.size

/-- The record with the sealed segments replaced by new ones in a new epoch. -/
def replaced (record : Record β) (sealed : List Nat) (ranges : List (KeyRange β)) : Record β :=
  let kept := record.segments.filter fun s => !sealed.contains s.number
  let epoch := nextEpoch record.epoch
  { record with
    epoch
    segments := inOrder (kept ++ created epoch record.nextSegment ranges)
    nextSegment := record.nextSegment + ranges.length }

/-- Seals segments and creates others, which have to cover the same part of the key space. -/
def reshape (record : Record β) (sealed : List Nat) (ranges : List (KeyRange β)) :
    Except (Refusal β) (Record β) := do
  if sealed.isEmpty || ranges.isEmpty then throw .nothingToScale
  let before ← sealedRanges record [] sealed
  match ranges.find? (!·.isValid) with
  | some bad => throw (.range bad)
  | none => pure ()
  match KeyRange.span? (KeyRange.sorted before) with
  | none => throw .sealedApart
  | some old =>
    let sorted := KeyRange.sorted ranges
    match KeyRange.span? sorted with
    | none => throw .rangesApart
    | some new =>
      if KeyRange.apart old.start new.start || KeyRange.apart old.stop new.stop then
        throw (.otherSpan new old)
      pure (replaced record sealed sorted)

def scale (record : Record β) (request : Request β) : Except (Refusal β) (Record β) :=
  match request.operation with
  | .scale shape => reshape record (shape.sealed.map (·.toNat)) shape.ranges
  | _ => .error (.foreign "scale" request.kind)

/-- The first segment that starts where `target` ends. -/
def neighbour? (record : Record β) (target : Segment β) : Option (Segment β) :=
  record.segments.find? fun s =>
    Bound.lt (Bound.magnitude (s.range.start - target.range.stop)) Bound.tolerance

def split (record : Record β) (target : Segment β) (parts : UInt32) :
    Except (Refusal β) (Record β) :=
  match (Direction.split parts).flaw? with
  | some refusal => .error refusal
  | none => reshape record [target.number] (target.range.split parts.toNat)

def merge (record : Record β) (target : Segment β) (asked : Nat) : Except (Refusal β) (Record β) :=
  let least := record.configuration.minSegments
  if record.segments.length ≤ least then .error (.belowMinimum least)
  else match neighbour? record target with
    | none => .error (.noNeighbour asked)
    | some next =>
      reshape record [target.number, next.number]
        [{ start := target.range.start, stop := next.range.stop }]

def autoScale (record : Record β) (request : Request β) : Except (Refusal β) (Record β) :=
  match request.operation with
  | .autoScale segment direction =>
    if record.configuration.scaling.isFixed then .error (.fixedScaling record.id)
    else match record.segment? segment.toNat with
      | none => .error (.inactive segment.toNat)
      | some target =>
        match direction with
        | .split parts => split record target parts
        | .merge => merge record target segment.toNat
  | _ => .error (.foreign "auto-scale" request.kind)

/-- Sealing changes nothing but the phase. -/
def sealing (record : Record β) (request : Request β) : Except (Refusal β) (Record β) :=
  match request.operation with
  | .seal => .ok record
  | _ => .error (.foreign "seal" request.kind)

/-- A truncation records its cut, which may name active segments only. -/
def truncate (record : Record β) (request : Request β) : Except (Refusal β) (Record β) :=
  match request.operation with
  | .truncate cut _ =>
    if cut.isEmpty then .error .nothingToCut
    else match cut.positions.find? fun (s, _) => (record.segment? s.toNat).isNone with
      | some (s, _) => .error (.cutInactive s.toNat)
      | none => .ok { record with truncation := some cut }
  | _ => .error (.foreign "truncate" request.kind)

/-- The plan a handler of the given kind makes; a deletion plans nothing. -/
def ofKind? : Kind → Option (Record β → Request β → Except (Refusal β) (Record β))
  | .update => some update
  | .scale => some scale
  | .autoScale => some autoScale
  | .seal => some sealing
  | .truncate => some truncate
  | .delete => none

end Plan

/-- Whether a stored record, or its absence, shows that a request has committed. -/
def hasCommitted {β : Type} (record : Option (Record β)) (request : Request β) : Bool :=
  match request.terminal? with
  | none => record.isNone
  | some phase => record.any fun r => r.phase = phase && r.lastApplied = some request.id

end StreamControl
