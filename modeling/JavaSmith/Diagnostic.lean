import JavaSmith.Builder
import JavaSmith.Value
import JavaSmith.Decimal.Shortest
import JavaSmith.Text.Quoted

/-! Structural text of types, values and builders for messages about broken contracts: the name of
each constructor with its parts, so that types of one spelling are still told apart. -/
namespace JavaSmith

def shownApplied (name : String) (parts : List String) : String :=
  name ++ "(" ++ String.intercalate ", " parts ++ ")"

def shownRecord (name : String) (parts : List (String × String)) : String :=
  let parts := parts.map fun (label, part) => label ++ ": " ++ part
  name ++ " \x7b " ++ String.intercalate ", " parts ++ " \x7d"

def shownList (items : List String) : String := "[" ++ String.intercalate ", " items ++ "]"

def shownBool (b : Bool) : String := if b then "true" else "false"

def shownMethod (m : Nat) : String := shownApplied "MethodId" [toString m]

def Kind.shown : Kind → String
  | boolean => "Boolean"
  | byte => "Byte"
  | short => "Short"
  | char => "Char"
  | int => "Int"
  | long => "Long"
  | float => "Float"
  | double => "Double"

def Domain.shown : Domain → String
  | set members => shownApplied "Set" [shownList (members.map toString)]
  | range lo hi => shownApplied "Range" [toString lo, toString hi]

def Restriction.shown (r : Restriction) : String :=
  shownRecord "RestrictedInt" [("base", r.base.shown), ("domain", r.domain.shown)]

namespace Ty

mutual

def shown : Ty → String
  | void => "Void"
  | primitive k => shownApplied "Primitive" [k.shown]
  | restricted r => shownApplied "Restricted" [r.shown]
  | object => shownApplied "Reference" ["Object"]
  | string => shownApplied "Reference" ["String"]
  | date => shownApplied "Reference" ["Date"]
  | boxed k => shownApplied "Reference" [shownApplied "Boxed" [k.shown]]
  | named d isFinal constructors =>
    shownApplied "Reference" [shownApplied "Dynamic" [shownRecord "DynamicType"
      [("descriptor", Text.quoted d), ("is_final", shownBool isFinal),
       ("constructors", shownList (shownLists constructors))]]]
  | array c n =>
    shownApplied "Array" [shownRecord "ArrayType"
      [("component", c.shown), ("dimensions", toString n)]]

def shownAll : List Ty → List String
  | [] => []
  | t :: rest => t.shown :: shownAll rest

def shownLists : List (List Ty) → List String
  | [] => []
  | ts :: rest => shownList (shownAll ts) :: shownLists rest

end

end Ty

def Value.shown : Value → String
  | boolean b => shownApplied "Boolean" [shownBool b]
  | byte n => shownApplied "Byte" [toString n.toInt]
  | short n => shownApplied "Short" [toString n.toInt]
  | char unit => shownApplied "Char" [toString unit.toNat]
  | int n => shownApplied "Int" [toString n.toInt]
  | long n => shownApplied "Long" [toString n.toInt]
  | float bits => shownApplied "Float" [Decimal.binary32.text bits.toNat]
  | double bits => shownApplied "Double" [Decimal.binary64.text bits.toNat]
  | string s => shownApplied "String" [Text.quoted s]
  | null => "Null"

def Library.Risk.shown : Library.Risk → String
  | safe => "Safe"
  | overflow => "Overflow"
  | divideByZero => "DivideByZero"

def Operation.shown (op : Operation) : String :=
  shownRecord "ExternalOperation"
    [("declaring", op.declaring.shown), ("name", Text.quoted op.name),
     ("kind", if op.isStatic then "Static" else "Instance"), ("return_type", op.returns.shown),
     ("params", shownList (op.params.map Ty.shown)), ("risk", op.risk.shown)]

def Builder.shown : Builder → String
  | null t => shownApplied "Null" [t.shown]
  | literal t => shownApplied "Literal" [t.shown]
  | boxing k => shownApplied "Boxing" [k.shown]
  | construct t params =>
    shownRecord "Constructor" [("ty", t.shown), ("params", shownList (params.map Ty.shown))]
  | newArray t index => shownRecord "ArrayInit" [("ty", t.shown), ("index_type", index.shown)]
  | external op => shownApplied "External" [op.shown]

end JavaSmith
