import JavaSmith.Text.Shapeless

/-! Text between double quotes as messages show it: the quote and the backslash are escaped, line
ends, tabs and NUL have short names, and a character that could not be seen is given by its
number. -/
namespace JavaSmith.Text

def byNumber (c : Char) : List Char :=
  ['\\', 'u', '\x7b'] ++ Nat.toDigits 16 c.toNat ++ ['\x7d']

def shownChar (c : Char) : List Char :=
  if c = '\\' then ['\\', '\\']
  else if c = '"' then ['\\', '"']
  else if c = '\n' then ['\\', 'n']
  else if c = '\t' then ['\\', 't']
  else if c = '\r' then ['\\', 'r']
  else if c.toNat = 0 then ['\\', '0']
  else if Shapeless.holds c then byNumber c
  else [c]

def quoted (s : String) : String := String.ofList ('"' :: s.toList.flatMap shownChar ++ ['"'])

end JavaSmith.Text
