import JavaSmith.Kind
import JavaSmith.Domain

/-! Types of variables, expressions and methods. A restricted type is an integral kind together
with the only values it may hold; it is written like its kind. Array types are built by `arrayOf`
alone, which keeps the component free of arrays, so a type has one spelling. -/
namespace JavaSmith

/-- An integral kind narrowed to a domain. -/
structure Restriction where
  base : Kind
  domain : Domain
  deriving DecidableEq, Inhabited

/-- The restriction of `base` to a domain that is not empty and fits the kind. -/
def Restriction.of? (base : Kind) (domain : Domain) : Option Restriction :=
  match base.bounds?, domain.min?, domain.max? with
  | some (lo, hi), some least, some greatest =>
    if lo ≤ least ∧ greatest ≤ hi then some ⟨base, domain⟩ else none
  | _, _, _ => none

inductive Ty where
  | void
  | primitive (kind : Kind)
  | restricted (r : Restriction)
  | object
  | string
  | date
  | boxed (kind : Kind)
  /-- Any other class, with the parameter lists of the constructors it offers. -/
  | named (descriptor : String) (isFinal : Bool) (constructors : List (List Ty))
  | array (component : Ty) (dimensions : Nat)
  deriving Inhabited

namespace Ty

/-- Named classes are told apart by their descriptor alone. -/
def same : Ty → Ty → Bool
  | void, void | object, object | string, string | date, date => true
  | primitive k, primitive k' | boxed k, boxed k' => k == k'
  | restricted r, restricted r' => r == r'
  | named d _ _, named d' _ _ => d == d'
  | array c n, array c' n' => n == n' && c.same c'
  | _, _ => false

instance : BEq Ty := ⟨same⟩

def restrictedTo? (base : Kind) (domain : Domain) : Option Ty :=
  (Restriction.of? base domain).map restricted

/-- Sizes one array dimension may have. -/
def arraySize (maxSize : Nat) : Ty := restricted ⟨.int, .range 0 maxSize⟩

/-- Upper bounds a loop counter may be compared with. -/
def loopBound (maxIterations : Nat) : Ty := restricted ⟨.int, .range 1 (max maxIterations 1 : Nat)⟩

/-- Right operands of a division that must not fail. -/
def nonzeroInt : Ty := restricted ⟨.int, .ofList [-9, 2, 10, 12, 100]⟩

/-- A class file describes at most this many dimensions. -/
def maxDimensions : Nat := 255

/-- Nested arrays merge, and the count of dimensions stops at the largest describable one. -/
def arrayOf (component : Ty) (dimensions : Nat) : Ty :=
  if dimensions = 0 then component
  else match component with
    | array inner n => array inner (min maxDimensions (n + dimensions))
    | other => array other (min maxDimensions dimensions)

/-- The array type with one dimension fewer. -/
def element? : Ty → Option Ty
  | array c n => some (arrayOf c (n - 1))
  | _ => none

def dimensions : Ty → Nat
  | array _ n => n
  | _ => 0

def isVoid : Ty → Bool
  | void => true
  | _ => false

def kind? : Ty → Option Kind
  | primitive k => some k
  | restricted r => some r.base
  | _ => none

def isNumeric (t : Ty) : Bool := t.kind?.any Kind.isNumeric

/-- A plain kind never promises that a value is nonzero. -/
def excludesZero : Ty → Bool
  | restricted r => r.domain.excludesZero
  | _ => false

def isReference : Ty → Bool
  | object | string | date | boxed _ | named _ _ _ => true
  | _ => false

def isNullable : Ty → Bool
  | array _ _ => true
  | t => t.isReference

/-- Whether a printed value has the same text on every run. -/
def isPrintable : Ty → Bool
  | primitive _ | restricted _ | string | boxed _ => true
  | _ => false

/-- Whether a class admits no subclass; `none` for types that are not classes. -/
def final? : Ty → Option Bool
  | object | date => some false
  | string | boxed _ => some true
  | named _ isFinal _ => some isFinal
  | _ => none

def brackets (n : Nat) : String := String.join (List.replicate n "[]")

/-- Fully qualified name, under which a type is catalogued. -/
def descriptor : Ty → String
  | void => "void"
  | primitive k => k.keyword
  | restricted r => r.base.keyword
  | object => "java.lang.Object"
  | string => "java.lang.String"
  | date => "java.util.Date"
  | boxed k => "java.lang." ++ k.boxedName
  | named d _ _ => d
  | array c n => c.descriptor ++ brackets n

def spelling : Ty → String
  | object => "Object"
  | string => "String"
  | boxed k => k.boxedName
  | array c n => c.spelling ++ brackets n
  | t => t.descriptor

theorem dimensions_arrayOf (t : Ty) (n : Nat) (h : t.dimensions ≤ maxDimensions) :
    (t.arrayOf n).dimensions = min maxDimensions (t.dimensions + n) := by
  unfold arrayOf
  split
  · subst n; simp; omega
  · split <;> simp [dimensions]

end Ty
end JavaSmith
