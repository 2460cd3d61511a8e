/-! Public operations of the class library that generated code may call, with all types by
descriptor. An entry whose types are not catalogued, or that may throw what the settings do not
allow, is left aside when operations are admitted. -/
namespace JavaSmith.Library

/-- What an operation may throw on some of its inputs. -/
inductive Risk where
  | safe | overflow | divideByZero
  deriving DecidableEq, Inhabited

structure Entry where
  declaring : String
  name : String
  isStatic : Bool
  params : List String
  returns : String
  risk : Risk
  deriving DecidableEq, Inhabited

def Entry.onClass (declaring name : String) (params : List String) (returns : String) : Entry :=
  ⟨declaring, name, true, params, returns, .safe⟩

def Entry.onObject (declaring name : String) (params : List String) (returns : String) : Entry :=
  ⟨declaring, name, false, params, returns, .safe⟩

def throwing (risk : Risk) (entry : Entry) : Entry := { entry with risk }

def object : String := "java.lang.Object"
def string : String := "java.lang.String"
def math : String := "java.lang.Math"
def integer : String := "java.lang.Integer"
def long : String := "java.lang.Long"
def short : String := "java.lang.Short"
def byte : String := "java.lang.Byte"
def character : String := "java.lang.Character"
def boolean : String := "java.lang.Boolean"
def float : String := "java.lang.Float"
def double : String := "java.lang.Double"
def date : String := "java.util.Date"
def stringBuilder : String := "java.lang.StringBuilder"

def objectEntries : List Entry :=
  [.onObject object "equals" [object] "boolean",
   .onObject object "hashCode" [] "int",
   .onObject object "toString" [] string,
   .onObject object "getClass" [] "java.lang.Class",
   .onObject object "wait" [] "void",
   .onObject object "notify" [] "void",
   .onObject object "notifyAll" [] "void"]

def stringEntries : List Entry :=
  [.onObject string "length" [] "int",
   .onObject string "isEmpty" [] "boolean",
   .onObject string "concat" [string] string,
   .onObject string "trim" [] string,
   .onObject string "indexOf" [string] "int",
   .onObject string "indexOf" ["int"] "int",
   .onObject string "lastIndexOf" [string] "int",
   .onObject string "startsWith" [string] "boolean",
   .onObject string "endsWith" [string] "boolean",
   .onObject string "compareTo" [string] "int",
   .onObject string "replace" ["char", "char"] string,
   .onObject string "contains" ["java.lang.CharSequence"] "boolean",
   .onObject string "equals" [object] "boolean",
   .onObject string "hashCode" [] "int",
   .onObject string "toString" [] string,
   .onClass string "valueOf" ["boolean"] string,
   .onClass string "valueOf" ["char"] string,
   .onClass string "valueOf" ["int"] string,
   .onClass string "valueOf" ["long"] string,
   .onClass string "valueOf" ["float"] string,
   .onClass string "valueOf" ["double"] string]

def mathEntries : List Entry :=
  [.onClass math "abs" ["int"] "int",
   .onClass math "abs" ["long"] "long",
   .onClass math "abs" ["double"] "double",
   .onClass math "max" ["int", "int"] "int",
   .onClass math "max" ["long", "long"] "long",
   .onClass math "min" ["int", "int"] "int",
   .onClass math "min" ["double", "double"] "double",
   .onClass math "sqrt" ["double"] "double",
   .onClass math "floor" ["double"] "double",
   .onClass math "ceil" ["double"] "double",
   .onClass math "signum" ["float"] "float",
   throwing .divideByZero (.onClass math "floorDiv" ["int", "int"] "int"),
   throwing .divideByZero (.onClass math "floorMod" ["long", "long"] "long"),
   throwing .overflow (.onClass math "addExact" ["int", "int"] "int"),
   throwing .overflow (.onClass math "subtractExact" ["long", "long"] "long"),
   throwing .overflow (.onClass math "multiplyExact" ["int", "int"] "int"),
   throwing .overflow (.onClass math "negateExact" ["int"] "int"),
   throwing .overflow (.onClass math "incrementExact" ["long"] "long"),
   throwing .overflow (.onClass math "toIntExact" ["long"] "int")]

def integerEntries : List Entry :=
  [.onObject integer "intValue" [] "int",
   .onObject integer "longValue" [] "long",
   .onObject integer "compareTo" [integer] "int",
   .onClass integer "compare" ["int", "int"] "int",
   .onClass integer "bitCount" ["int"] "int",
   .onClass integer "reverse" ["int"] "int",
   .onClass integer "rotateLeft" ["int", "int"] "int",
   .onClass integer "highestOneBit" ["int"] "int",
   .onClass integer "numberOfLeadingZeros" ["int"] "int",
   .onClass integer "signum" ["int"] "int",
   .onClass integer "sum" ["int", "int"] "int",
   .onClass integer "toBinaryString" ["int"] string,
   .onClass integer "toHexString" ["int"] string,
   throwing .divideByZero (.onClass integer "divideUnsigned" ["int", "int"] "int"),
   throwing .divideByZero (.onClass integer "remainderUnsigned" ["int", "int"] "int"),
   .onClass integer "hashCode" ["int"] "int",
   .onClass integer "toString" ["int"] string]

def longEntries : List Entry :=
  [.onObject long "longValue" [] "long",
   .onClass long "compare" ["long", "long"] "int",
   .onClass long "bitCount" ["long"] "int",
   .onClass long "numberOfTrailingZeros" ["long"] "int",
   .onClass long "reverseBytes" ["long"] "long",
   throwing .divideByZero (.onClass long "divideUnsigned" ["long", "long"] "long")]

def shortEntries : List Entry :=
  [.onObject short "shortValue" [] "short",
   .onClass short "reverseBytes" ["short"] "short",
   .onClass short "toUnsignedInt" ["short"] "int"]

def byteEntries : List Entry :=
  [.onObject byte "byteValue" [] "byte",
   .onClass byte "toUnsignedInt" ["byte"] "int"]

def characterEntries : List Entry :=
  [.onObject character "charValue" [] "char",
   .onClass character "isDigit" ["char"] "boolean",
   .onClass character "isLetter" ["char"] "boolean",
   .onClass character "toUpperCase" ["char"] "char",
   .onClass character "getNumericValue" ["char"] "int"]

def booleanEntries : List Entry :=
  [.onObject boolean "booleanValue" [] "boolean",
   .onClass boolean "logicalXor" ["boolean", "boolean"] "boolean",
   .onClass boolean "compare" ["boolean", "boolean"] "int"]

def floatEntries : List Entry :=
  [.onObject float "floatValue" [] "float",
   .onClass float "isNaN" ["float"] "boolean",
   .onClass float "floatToIntBits" ["float"] "int",
   .onClass float "intBitsToFloat" ["int"] "float"]

def doubleEntries : List Entry :=
  [.onObject double "doubleValue" [] "double",
   .onClass double "isNaN" ["double"] "boolean",
   .onClass double "isFinite" ["double"] "boolean",
   .onClass double "compare" ["double", "double"] "int",
   .onClass double "doubleToLongBits" ["double"] "long",
   .onClass double "longBitsToDouble" ["long"] "double"]

def dateEntries : List Entry :=
  [.onObject date "getTime" [] "long",
   .onObject date "before" [date] "boolean",
   .onObject date "after" [date] "boolean",
   .onObject date "compareTo" [date] "int",
   .onObject date "hashCode" [] "int"]

def stringBuilderEntries : List Entry :=
  [.onObject stringBuilder "append" [string] stringBuilder,
   .onObject stringBuilder "append" ["int"] stringBuilder,
   .onObject stringBuilder "append" ["char"] stringBuilder,
   .onObject stringBuilder "append" ["boolean"] stringBuilder,
   .onObject stringBuilder "length" [] "int",
   .onObject stringBuilder "reverse" [] stringBuilder,
   .onObject stringBuilder "indexOf" [string] "int",
   .onObject stringBuilder "toString" [] string]

def entries : List Entry :=
  objectEntries ++ stringEntries ++ mathEntries ++ integerEntries ++ longEntries ++ shortEntries ++
  byteEntries ++ characterEntries ++ booleanEntries ++ floatEntries ++ doubleEntries ++
  dateEntries ++ stringBuilderEntries

/-- Operations that would make the output depend on the identity of an object, or that block. -/
def excludedNames : List String :=
  ["equals", "hashCode", "wait", "notify", "notifyAll", "toString", "getClass"]

def stringBuilderParameters : List (List String) := [[], [string]]

end JavaSmith.Library
