/-! The shortest decimal that reads back as a given binary float. A finite nonzero float is
`mantissa * 2 ^ exponent`, and every real nearer to it than to its neighbours reads back as it. The
grids of multiples of powers of ten are searched from coarse to fine; the first grid that meets the
interval gives the fewest digits. The float lies on the last grid searched, so the search succeeds.
All arithmetic is exact. -/
namespace JavaSmith.Decimal

/-- Layout of an interchange format: stored bits of the fraction and of the exponent. -/
structure Format where
  fractionBits : Nat
  exponentBits : Nat

def binary32 : Format := ⟨23, 8⟩

def binary64 : Format := ⟨52, 11⟩

/-- A magnitude `mantissa * 2 ^ exponent`. The interval of a float whose fraction is zero reaches
only half as far down as up, unless no smaller exponent exists. -/
structure Magnitude where
  mantissa : Nat
  exponent : Int
  narrowBelow : Bool

inductive Reading where
  | notANumber
  | infinite
  | finite (v : Magnitude)

namespace Format

def isNegative (f : Format) (bits : Nat) : Bool :=
  bits.testBit (f.fractionBits + f.exponentBits)

def read (f : Format) (bits : Nat) : Reading :=
  let fraction := bits % (1 <<< f.fractionBits)
  let stored := bits >>> f.fractionBits % (1 <<< f.exponentBits)
  let least : Int := 2 - (1 <<< (f.exponentBits - 1) : Nat) - f.fractionBits
  if stored = 1 <<< f.exponentBits - 1 then
    if fraction = 0 then .infinite else .notANumber
  else if stored = 0 then .finite ⟨fraction, least, false⟩
  else .finite ⟨1 <<< f.fractionBits + fraction, least + stored - 1, fraction = 0 && stored ≠ 1⟩

end Format

structure Scientific where
  digits : Nat
  exponent : Int

def tenTo (n : Nat) : Nat := Nat.pow 10 n

namespace Magnitude

def integral (v : Magnitude) (places : Nat) : Nat :=
  ((v.mantissa * tenTo places) <<< v.exponent.toNat) >>> (-v.exponent).toNat

/-- The multiple of `10 ^ e` that reads back as `v`: of two, the nearer, and the greater if they are
equally near. Everything is scaled to integers, the value to `4 * mantissa` units so that the ends
of its interval are integers too; they belong to it if the mantissa is even. -/
def onGrid? (v : Magnitude) (e : Int) : Option Nat :=
  let unit := tenTo (-e).toNat <<< (v.exponent - 2).toNat
  let step := tenTo e.toNat <<< (2 - v.exponent).toNat
  let value := 4 * v.mantissa * unit
  let low := (4 * v.mantissa - if v.narrowBelow then 1 else 2) * unit
  let high := (4 * v.mantissa + 2) * unit
  let inside (n : Nat) : Bool :=
    if v.mantissa % 2 = 0 then low ≤ n * step && n * step ≤ high
    else low < n * step && n * step < high
  let below := value / step
  let above := below + 1
  match inside below, inside above with
  | true, true => if value - below * step < above * step - value then some below else some above
  | true, false => some below
  | false, true => some above
  | false, false => none

/-- Searches `fuel` grids from `10 ^ e` downward; the last one is taken to hold the value itself. -/
def search (v : Magnitude) : Nat → Int → Scientific
  | 0, e => ⟨v.integral (-e).toNat, e⟩
  | fuel + 1, e =>
    match v.onGrid? e with
    | some n => ⟨n, e⟩
    | none => v.search fuel (e - 1)

/-- Decimal digits of a natural number, none for zero. -/
def digitCount (n : Nat) : Nat := if n = 0 then 0 else (Nat.toDigits 10 n).length

def shortest (v : Magnitude) : Scientific :=
  let start : Int :=
    digitCount (v.integral 0)
  v.search (start - min v.exponent 0).toNat start

end Magnitude

/-- The least decimal exponent written positionally, and the first one no longer so written. -/
def positionalRange : Int × Int := (-4, 16)

def zeros (n : Nat) : String := String.join (List.replicate n "0")

/-- A nonzero decimal: positional with at least one digit after the point when its leading digit
stands in `positionalRange`, otherwise one digit before the point and a bare exponent. -/
def Scientific.text (s : Scientific) : String :=
  let digits := Nat.toDigits 10 s.digits
  let point : Int := digits.length + s.exponent
  if positionalRange.1 ≤ point - 1 ∧ point - 1 < positionalRange.2 then
    if point ≤ 0 then "0." ++ zeros (-point).toNat ++ String.ofList digits
    else if digits.length ≤ point.toNat then
      String.ofList digits ++ zeros (point.toNat - digits.length) ++ ".0"
    else String.ofList (digits.take point.toNat) ++ "." ++ String.ofList (digits.drop point.toNat)
  else
    let leading := String.ofList (digits.take 1)
    let rest := digits.drop 1
    leading ++ (if rest.isEmpty then "" else "." ++ String.ofList rest) ++ "e" ++
      toString (point - 1)

/-- Text of a finite float with its sign, also before zero. -/
def Format.text (f : Format) (bits : Nat) : String :=
  let sign := if f.isNegative bits then "-" else ""
  match f.read bits with
  | .notANumber => "NaN"
  | .infinite => sign ++ "inf"
  | .finite v => sign ++ if v.mantissa = 0 then "0.0" else v.shortest.text

end JavaSmith.Decimal
