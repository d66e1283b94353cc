import StreamControl.Text.Utf8

/-!
# Request identifiers

A request is named by 128 bits. The written form has 32 hexadecimal digits in groups of
8, 4, 4, 4 and 12. The reader also takes the digits without hyphens, the hyphenated form in braces,
and the hyphenated form behind `urn:uuid:`; letters may have either case.
-/

namespace StreamControl

structure RequestId where
  value : BitVec 128
  deriving DecidableEq, Repr, Inhabited

namespace RequestId

def ofNat (n : Nat) : RequestId := ⟨BitVec.ofNat 128 n⟩

/-- The lengths of the groups of digits. -/
def groups : List Nat := [8, 4, 4, 4, 12]

/-- Cuts digits into the given groups and puts a hyphen between them. -/
def hyphenate : List Nat → List Char → List Char
  | [], cs => cs
  | [_], cs => cs
  | n :: rest, cs => cs.take n ++ '-' :: hyphenate rest (cs.drop n)

/-- Takes the hyphens out again, if they stand exactly between the groups. -/
def unhyphenate : List Nat → List Char → Option (List Char)
  | [], cs => some cs
  | [_], cs => some cs
  | n :: rest, cs =>
    match cs.drop n with
    | '-' :: tail => (cs.take n ++ ·) <$> unhyphenate rest tail
    | _ => none

def toChars (id : RequestId) : List Char := hyphenate groups (hexDigits 32 id.value.toNat)

def toString (id : RequestId) : String := String.ofList id.toChars

instance : ToString RequestId := ⟨toString⟩

/-- Reads exactly 32 digits. -/
def ofDigits? (cs : List Char) : Option RequestId :=
  if cs.length = 32 then ofNat <$> hexNumber? cs else none

def ofHyphenated? (cs : List Char) : Option RequestId :=
  if cs.length = 36 then unhyphenate groups cs >>= ofDigits? else none

/-- What stands in front of the hyphenated form in a URN. -/
def urn : List Char := "urn:uuid:".toList

def ofChars? (cs : List Char) : Option RequestId :=
  if cs.length = 32 then ofDigits? cs
  else if cs.length = 36 then ofHyphenated? cs
  else if cs.length = 38 then
    if cs.head? = some '{' ∧ cs.getLast? = some '}' then ofHyphenated? (cs.drop 1).dropLast
    else none
  else if (cs.take urn.length).map Char.toLower = urn then ofHyphenated? (cs.drop urn.length)
  else none

def ofString? (s : String) : Option RequestId := ofChars? s.toList

end RequestId

end StreamControl
