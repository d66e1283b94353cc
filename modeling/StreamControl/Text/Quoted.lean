import StreamControl.Text.Hidden

/-!
# Quoted text

A text between quotation marks on one line, such that every character of it can be seen: the marks
themselves, backslashes and line ends are escaped by a letter, characters that show nothing by their
code point.
-/

namespace StreamControl

/-- How a character is written between quotation marks. -/
def quotedChar (c : Char) : String :=
  if c = '"' then "\\\""
  else if c = '\\' then "\\\\"
  else if c = '\n' then "\\n"
  else if c = '\r' then "\\r"
  else if c = '\t' then "\\t"
  else if c.toNat = 0 then "\\0"
  else if isHidden c then "\\u\x7b" ++ String.ofList (Nat.toDigits 16 c.toNat) ++ "\x7d"
  else c.toString

def quoted (text : String) : String := "\"" ++ String.join (text.toList.map quotedChar) ++ "\""

end StreamControl
