import JavaSmith.Random.Uniform

/-! Two discrete distributions, sampled in double precision. The order of the operations fixes the
last bit of every intermediate result and so the outcome. -/
namespace JavaSmith.Random

def powerFrom (acc base : Float) (exponent : Nat) : Float :=
  let acc := if exponent % 2 = 1 then acc * base else acc
  if exponent < 2 then acc else powerFrom acc (base * base) (exponent / 2)
termination_by exponent

def power (base : Float) (exponent : Nat) : Float := powerFrom 1 base exponent

/-- Successes counted while `u` lies above the probability `r` of the present count. The loop has no other
end of its own: past the number of trials `r` is zero but for rounding, and a part of `u` that rounding
has left over would keep it going. Here the trials bound it. -/
def invert (a s : Float) (u r : Float) (count : Nat) : (trialsLeft : Nat) → Nat
  | 0 => count
  | trialsLeft + 1 =>
    if u > r then
      let next := count + 1
      invert a s (u - r) (r * (a / next.toFloat - s)) next trialsLeft
    else count

/-- Successes among `trials` with probability 0.3 each, by inverting the distribution function. -/
def binomial (trials : Nat) : Draw Nat := do
  let success : Float := 0.3
  let failure := 1.0 - success
  let s := success / failure
  let a := (trials + 1).toFloat * s
  let u ← unit
  return invert a s u (power failure trials) 0 trials

theorem invert_le (a s u r : Float) (count trialsLeft : Nat) :
    invert a s u r count trialsLeft ≤ count + trialsLeft := by
  induction trialsLeft generalizing u r count with
  | zero => exact Nat.le_refl _
  | succ n ih =>
    unfold invert
    split
    · exact Nat.le_trans (ih ..) (by omega)
    · omega

theorem binomial_le (trials : Nat) (s : Stream) : (binomial trials s).1 ≤ trials := by
  change invert _ _ (unit s).1 _ 0 trials ≤ trials
  exact Nat.le_trans (invert_le ..) (Nat.le_of_eq (Nat.zero_add _))

/-- Consecutive draws below `p`. Nothing bounds such a run; here it ends after the attempts, which for a `p`
below one half and `maxAttempts` of them changes it with a probability below `2 ^ -1024`. -/
def runLength (p : Float) : (attempts : Nat) → Draw Nat
  | 0 => return 0
  | attempts + 1 => do
    let u ← unit
    if u < p then
      let more ← runLength p attempts
      return more + 1
    else return 0

/-- A remainder modulo 4, each accepted with the probability of that many failures. The loop goes on until
one is; here it ends after the attempts. At most half of the remainders are refused where the
probability of failure is 0.8, so `maxAttempts` are met as rarely as in `scaled`. -/
def remainder (failure : Float) : (attempts : Nat) → Draw Nat
  | 0 => return 0
  | attempts + 1 => do
    let word ← word64
    let m := (word &&& 3).toNat
    let u ← unit
    if u < power failure m then return m
    else remainder failure attempts

/-- Failures before the first success of probability 0.2: whole groups of four, then what remains. -/
def geometric : Draw Nat := do
  let failure : Float := 1.0 - 0.2
  let pair := failure * failure
  let groups ← runLength (pair * pair) maxAttempts
  let rest ← remainder failure maxAttempts
  return 4 * groups + rest

end JavaSmith.Random
