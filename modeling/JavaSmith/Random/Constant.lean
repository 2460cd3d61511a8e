import JavaSmith.Random.Choice
import JavaSmith.Random.Distribution
import JavaSmith.Value

/-! Random constants. Half of the integers are boundaries of their range or lie next to one, since
those are where compiled arithmetic goes wrong; the other half are small where the range
allows. Floats are drawn from a short list of telling patterns, strings are alphanumeric. -/
namespace JavaSmith.Random

def minLong : Int := -9223372036854775808

def maxLong : Int := 9223372036854775807

/-- Candidates for a boundary of `lo ..= hi`; those outside the range do not count. Stepping inward
stops at the ends of the 64-bit integers. -/
def boundaries (lo hi : Int) : List Int :=
  [lo, hi, 0, 1, -1, min (lo + 1) maxLong, max (hi - 1) minLong].filter fun n => lo ≤ n && n ≤ hi

def integerIn (lo hi : Int) : Draw Int := do
  if ← coin then
    let boundary ← chooseOneByOne (boundaries lo hi)
    return boundary.getD lo
  else
    let smallLo := max lo (-128)
    let smallHi := min hi 127
    if smallLo ≤ smallHi then integerBetween smallLo smallHi else integerBetween lo hi

theorem integerIn_mem {lo hi : Int} (h : lo ≤ hi) (s : Stream) :
    lo ≤ (integerIn lo hi s).1 ∧ (integerIn lo hi s).1 ≤ hi := by
  simp only [integerIn, bind, StateT.bind]
  generalize coin s = flip
  obtain ⟨heads, s⟩ := flip
  cases heads
  · simp only [Bool.false_eq_true, if_false]
    split
    · next small =>
      have := integerBetween_mem small s
      omega
    · exact integerBetween_mem h s
  · change lo ≤ (chooseOneByOne (boundaries lo hi) s).1.getD lo ∧
      (chooseOneByOne (boundaries lo hi) s).1.getD lo ≤ hi
    cases e : (chooseOneByOne (boundaries lo hi) s).1 with
    | none => simpa using h
    | some n =>
      have := chooseOneByOne_mem e
      simp only [boundaries, List.mem_filter, Bool.and_eq_true, decide_eq_true_eq] at this
      exact this.2

def inDomain (d : Domain) : Draw (Option Int) :=
  match d with
  | .set members => choose members
  | .range lo hi =>
    if lo ≤ hi then do
      let n ← integerIn lo hi
      return some n
    else return none

/-- Zeros and ones of both signs, a half, the extremes, the least normal number, the spacing at one
and the first gap between consecutive integers. -/
def floatPatterns : List UInt32 :=
  [0x00000000, 0x80000000, 0x3f800000, 0xbf800000, 0x3f000000, 0x7f7fffff, 0xff7fffff, 0x00800000,
   0x34000000, 0x4b800000]

/-- Zeros and ones of both signs, the first gap between consecutive integers, the greatest unsigned
and signed 32-bit integers, the greatest and the least normal number, the spacing at one. -/
def doublePatterns : List UInt64 :=
  [0x0000000000000000, 0x8000000000000000, 0x3ff0000000000000, 0xbff0000000000000,
   0x4340000000000000, 0x41efffffffe00000, 0x41dfffffffc00000, 0x7fefffffffffffff,
   0x0010000000000000, 0x3cb0000000000000]

/-- Code units that a lexer or an encoder might treat apart. -/
def charPatterns : List UInt16 := [0, 1, 9, 10, 39, 92, 127, 255, 0xd800, 0xffff]

def float : Draw UInt32 := do
  let bits ← choose floatPatterns
  return bits.getD 0

def double : Draw UInt64 := do
  let bits ← choose doublePatterns
  return bits.getD 0

def char : Draw UInt16 := do
  if ← coin then
    let n ← indexExact 75
    return UInt16.ofNat ('0'.toNat + n)
  else
    let unit ← choose charPatterns
    return unit.getD 0

def alphanumerics : List Char :=
  "ABCDEFGHIJKLMNOPQRSTUVWXYZabcdefghijklmnopqrstuvwxyz0123456789".toList

/-- Six bits select a character; selections past the last one, two of 64, are drawn again, without an end.
Here the attempts are bounded, as in `scaled`. -/
def alphanumeric : (attempts : Nat) → Draw Char
  | 0 => return 'A'
  | attempts + 1 => do
    let word ← word32
    match alphanumerics[(word >>> 26).toNat]? with
    | some c => return c
    | none => alphanumeric attempts

def maxStringLength : Nat := 32

def string : Draw String := do
  let length ← geometric
  let cs ← times (min length maxStringLength) (alphanumeric maxAttempts)
  return String.ofList cs

def constant : Kind → Draw Value
  | .boolean => do
    let b ← coin
    return .boolean b
  | .byte => do
    let n ← integerIn (-128) 127
    return .byte (Int8.ofInt n)
  | .short => do
    let n ← integerIn (-32768) 32767
    return .short (Int16.ofInt n)
  | .char => do
    let unit ← char
    return .char unit
  | .int => do
    let n ← integerIn (-2147483648) 2147483647
    return .int (Int32.ofInt n)
  | .long => do
    let n ← integerIn minLong maxLong
    return .long (Int64.ofInt n)
  | .float => do
    let bits ← float
    return .float bits
  | .double => do
    let bits ← double
    return .double bits

end JavaSmith.Random
