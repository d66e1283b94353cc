import StreamControl.Json.Numeral
import StreamControl.Json.Reader
import StreamControl.Json.Writer

/-!
# Decoding JSON values

Readers of the parts that stored values are made of. A value is read either where it stands in a
text, or out of a buffer: the members of a tagged object are buffered until the tag is known, and
a buffered value must be sound all through (`Json.isSound`), even where nobody asks for it.

A record is an object whose members may stand in any order, with unknown members ignored and known
ones given at most once, or an array of its fields in order.
-/

namespace StreamControl

namespace Json

/-- Where a value is read from: a text, inside so many arrays and objects, or a buffer. -/
inductive Source
  | text (depth : Nat)
  | buffer
  deriving DecidableEq, Repr

namespace Source

/-- The source of the parts of a value. -/
def inner : Source → Source
  | .text depth => .text (depth + 1)
  | .buffer => .buffer

end Source

/-- The greatest depth of nesting at which a value is looked into. -/
def maxDepth : Nat := 127

mutual

/-- Whether every text in a value is a text and every numeral has a value. -/
def isSound : Json → Bool
  | .number n => n.value?.isSome
  | .text pieces => (toText? pieces).isSome
  | .array items => soundItems items
  | .object members => soundMembers members
  | _ => true

def soundItems : List Json → Bool
  | [] => true
  | v :: rest => v.isSound && soundItems rest

def soundMembers : List (List Piece × Json) → Bool
  | [] => true
  | (name, v) :: rest => (toText? name).isSome && v.isSound && soundMembers rest

end

/-- Whether a value at a source can be buffered. -/
def canBuffer (source : Source) (v : Json) : Bool :=
  match source with
  | .text depth => v.isSound && depth + v.height ≤ maxDepth
  | .buffer => true

/-! ## Plain values -/

def string? : Json → Option String
  | .text pieces => toText? pieces
  | _ => none

def bool? : Json → Option Bool
  | .bool b => some b
  | _ => none

/-- A whole number below `bound`. -/
def natBelow? (bound : Nat) : Json → Option Nat
  | .number n =>
    match n.value? with
    | some (.natural k) => if k < bound then some k else none
    | _ => none
  | _ => none

def nat32? (v : Json) : Option Nat := natBelow? (Nat.pow 2 32) v
def nat64? (v : Json) : Option Nat := natBelow? (Nat.pow 2 64) v
def uint32? (v : Json) : Option UInt32 := Nat.toUInt32 <$> nat32? v
def uint64? (v : Json) : Option UInt64 := Nat.toUInt64 <$> nat64? v

/-- Any number, as a double. -/
def float? : Json → Option Float
  | .number n => Number.toFloat <$> n.value?
  | _ => none

/-- A value that may be `null`. -/
def optional? {α : Type} (read : Json → Option α) : Json → Option (Option α)
  | .null => some none
  | v => some <$> read v

def list? {α : Type} (read : Json → Option α) : Json → Option (List α)
  | .array items => items.mapM read
  | _ => none

/-- A word: a text, or an object whose only member has the word as its name and nothing in it. -/
def word? (source : Source) : Json → Option String
  | .text pieces => toText? pieces
  | .object [(name, v)] =>
    match v, source with
    | .null, _ => toText? name
    | .object [], .buffer => toText? name
    | _, _ => none
  | _ => none

/-! ## Records -/

/-- The fields of a record, in the order of their names. -/
abbrev Fields := List (Option Json)

/-- Adds a member to the fields found so far; a field that is there already is refused. -/
def addField? (names : List String) (fields : Fields) (name : String) (v : Json) : Option Fields :=
  match names.idxOf? name with
  | none => some fields
  | some i => if fields[i]?.join.isSome then none else some (fields.set i (some v))

/-- Sorts the members of an object into fields. -/
def fieldsOf? (names : List String) (members : List (List Piece × Json)) : Option Fields :=
  members.foldlM (fun fields (name, v) => do addField? names fields (← toText? name) v)
    (names.map fun _ => none)

/-- The fields of a record with the given names. -/
def record? (names : List String) : Json → Option Fields
  | .object members => fieldsOf? names members
  | .array items =>
    if items.length ≤ names.length then
      some (items.map some ++ List.replicate (names.length - items.length) none)
    else none
  | _ => none

/-- A field that has to be there. -/
def required? {α : Type} (read : Json → Option α) : Option Json → Option α
  | some v => read v
  | none => none

/-- A field that has a value of its own when it is left out. -/
def defaulted? {α : Type} (read : Json → Option α) (value : α) : Option Json → Option α
  | some v => read v
  | none => some value

/-! ## Tagged values -/

/-- The place of a tag among the variants. A buffered tag may also be given by its place. -/
def variant? (source : Source) (names : List String) : Json → Option Nat
  | .text pieces => do names.idxOf? (← toText? pieces)
  | v =>
    match source with
    | .buffer => natBelow? names.length v
    | .text _ => none

/-- The members of an object other than the one called `tag`, and the values of those. -/
def splitTag? (tag : String) :
    List (List Piece × Json) → Option (List Json × List (List Piece × Json))
  | [] => some ([], [])
  | (name, v) :: rest => do
    let (tags, others) ← splitTag? tag rest
    if (← toText? name) = tag then some (v :: tags, others) else some (tags, (name, v) :: others)

/-- A value marked with one of several variants: the variant, and the rest, which is then read from
the buffer. An array has the tag in front. -/
def tagged? (tag : String) (names : List String) (source : Source) : Json → Option (Nat × Json)
  | .object members => do
    let (tags, others) ← splitTag? tag members
    match tags with
    | [v] =>
      if others.all fun (_, v) => canBuffer source.inner v then
        (·, .object others) <$> variant? source names v
      else none
    | _ => none
  | .array (v :: rest) =>
    if rest.all (canBuffer source.inner) then (·, .array rest) <$> variant? source names v else none
  | _ => none

/-- The rest of a tagged value whose variant has no fields: members are ignored, items are not. -/
def unit? : Json → Option Unit
  | .object _ => some ()
  | .array [] => some ()
  | _ => none

/-! ## Whole texts -/

/-- Reads a text that holds one value. -/
def decode? {α : Type} (read : Source → Json → Option α) (bytes : Bytes) : Option α :=
  parse? bytes >>= read (.text 0)

end Json

end StreamControl
