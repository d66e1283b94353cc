import StreamControl.Operation.Request

/-!
# Refusals

Why an argument is not acceptable: the causes that need no stored state, and those a plan finds when
it is applied to a stream. `Refusal.message` words them.
-/

namespace StreamControl

inductive Refusal (β : Type)
  | identity (flaw : StreamId.Flaw)
  | configuration (flaw : Configuration.Flaw)
  /-- A split into too few or too many parts. -/
  | parts (got : UInt32)
  /-- A scale that names no segments or no ranges, refused before anything is stored. -/
  | emptyScale
  | tooManyRanges
  | range (r : KeyRange β)
  | emptyCut
  /-- A handler was given an operation of another kind. -/
  | foreign (handler : String) (kind : Kind)
  | fixedScaling (stream : StreamId)
  | inactive (segment : Nat)
  | belowMinimum (segments : Nat)
  | noNeighbour (segment : Nat)
  /-- A plan with no segments to seal or no ranges to create. -/
  | nothingToScale
  | listedTwice (segment : Nat)
  | sealedApart
  | rangesApart
  | otherSpan (created sealed : KeyRange β)
  /-- A plan for a cut without positions. -/
  | nothingToCut
  | cutInactive (segment : Nat)
  /-- A commit of an operation that has no terminal phase. -/
  | noTerminal (kind : Kind)
  /-- A cause given in words. -/
  | stated (text : String)
  deriving Repr, DecidableEq

namespace StreamId

def Flaw.message : Flaw → String
  | .empty field => s!"stream {field} must not be empty"
  | .slash field value => s!"stream {field} '{value}' must not contain '/'"

end StreamId

namespace Configuration

def Flaw.message : Flaw → String
  | .noSegments => "min_segments must be at least 1"
  | .tooManySegments => s!"min_segments must be at most {maxSegments}"
  | .lacksRate => "rate based scaling needs a non-zero target and scale factor"

end Configuration

def Refusal.message {β : Type} [Bound β] : Refusal β → String
  | .identity flaw => flaw.message
  | .configuration flaw => flaw.message
  | .parts got => s!"a split needs 2 to {Direction.maxParts} parts, got {got}"
  | .emptyScale => "scale needs segments to seal and new key ranges"
  | .tooManyRanges => s!"scale may create at most {maxSegments} segments"
  | .range r => s!"invalid key range {r.text}"
  | .emptyCut => "truncation cut must not be empty"
  | .foreign handler kind => s!"{handler} handler received {kind}"
  | .fixedScaling stream => s!"stream {stream} has a fixed scaling policy"
  | .inactive segment => s!"segment {segment} is not active"
  | .belowMinimum segments => s!"merge would drop below {segments} segments"
  | .noNeighbour segment => s!"segment {segment} has no right-hand neighbour"
  | .nothingToScale => "scale needs segments to seal and ranges to create"
  | .listedTwice segment => s!"segment {segment} listed twice"
  | .sealedApart => "sealed segments are not contiguous"
  | .rangesApart => "new key ranges overlap or leave gaps"
  | .otherSpan created sealed =>
    s!"new ranges cover {created.text} but sealed segments cover {sealed.text}"
  | .nothingToCut => "empty stream cut"
  | .cutInactive segment => s!"stream cut references inactive segment {segment}"
  | .noTerminal kind => s!"{kind} has no terminal state to commit"
  | .stated text => text

/-- Why a direction is refused. -/
def Direction.flaw? {β : Type} (direction : Direction) : Option (Refusal β) :=
  match direction with
  | .split parts => if direction.isValid then none else some (.parts parts)
  | .merge => none

/-- Why an operation is refused before any stored state is looked at. -/
def Operation.flaw? {β : Type} [Bound β] : Operation β → Option (Refusal β)
  | .update configuration => configuration.flaw?.map .configuration
  | .scale shape =>
    if shape.sealed.isEmpty || shape.ranges.isEmpty then some .emptyScale
    else if shape.ranges.length > maxSegments then some .tooManyRanges
    else (shape.ranges.find? (!·.isValid)).map .range
  | .autoScale _ direction => direction.flaw?
  | .truncate cut _ => if cut.isEmpty then some .emptyCut else none
  | .seal | .delete => none

end StreamControl
