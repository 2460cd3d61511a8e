import JavaSmith.Value
import JavaSmith.Decimal.Shortest

/-! Values as they are written in a class body. Narrow integers carry a cast, negative numbers
stand in parentheses, and `null` names the type it is meant as, so the text reads as one operand
wherever it is put. -/
namespace JavaSmith

/-- A character between quotes: the quote itself, the backslash and the three common line and tab
characters are escaped, all others stand for themselves. -/
def escaped (quote c : Char) : List Char :=
  if c = '\\' then ['\\', '\\']
  else if c = '\n' then ['\\', 'n']
  else if c = '\t' then ['\\', 't']
  else if c = '\r' then ['\\', 'r']
  else if c = quote then ['\\', c]
  else [c]

def quoteMark : Char := '\x27'

def castText (target operand : String) : String := "((" ++ target ++ ") " ++ operand ++ ")"

/-- Characters of printable ASCII are written between quotes, all other units as numbers. -/
def charText (unit : UInt16) : String :=
  if 32 ≤ unit ∧ unit ≤ 126 then
    String.ofList (quoteMark :: escaped quoteMark (Char.ofNat unit.toNat) ++ [quoteMark])
  else castText "char" (toString unit.toNat)

def stringText (s : String) : String :=
  String.ofList ('"' :: s.toList.flatMap (escaped '"') ++ ['"'])

/-- Parentheses keep a leading minus from joining the operator before it. -/
def grouped (negative : Bool) (text : String) : String :=
  if negative then "(" ++ text ++ ")" else text

def floatText (format : Decimal.Format) (className suffix : String) (bits : Nat) : String :=
  match format.read bits with
  | .notANumber => className ++ ".NaN"
  | .infinite =>
    className ++ if format.isNegative bits then ".NEGATIVE_INFINITY" else ".POSITIVE_INFINITY"
  | .finite _ => grouped (format.isNegative bits) (format.text bits ++ suffix)

def Value.literal (v : Value) (t : Ty) : String :=
  match v with
  | boolean b => if b then "true" else "false"
  | byte n => castText "byte" (toString n.toInt)
  | short n => castText "short" (toString n.toInt)
  | char unit => charText unit
  | int n => grouped (n < 0) (toString n.toInt)
  | long n => grouped (n < 0) (toString n.toInt ++ "L")
  | float bits => floatText Decimal.binary32 "Float" "f" bits.toNat
  | double bits => floatText Decimal.binary64 "Double" "d" bits.toNat
  | string s => stringText s
  | null => castText t.spelling "null"

end JavaSmith
