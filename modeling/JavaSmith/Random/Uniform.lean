import JavaSmith.Random.Stream

/-! Uniform numbers. A word is scaled to the wanted range by taking the high half of its product
with the size of the range; the low half says whether the word belongs to the incomplete last
stretch and has to be drawn again. -/
namespace JavaSmith.Random

structure Words where
  bits : Nat
  size : Nat
  draw : Draw Nat
  lt_size : ∀ s, (draw s).1 < size

def words32 : Words where
  bits := 32
  size := UInt32.size
  draw := do
    let w ← word32
    return w.toNat
  lt_size s := (word32 s).1.toNat_lt_size

def words64 : Words where
  bits := 64
  size := UInt64.size
  draw := do
    let w ← word64
    return w.toNat
  lt_size s := (word64 s).1.toNat_lt_size

/-- Words drawn for one number at most. Fewer than half of all words are refused, so the bound is
met with a probability below `2 ^ -1024`. -/
def maxAttempts : Nat := 1024

/-- A number below `size`, from the words whose low half is at most `zone`. -/
def scaled (source : Words) (zone size : Nat) : (attempts : Nat) → Draw Nat
  | 0 => return 0
  | attempts + 1 => do
    let word ← source.draw
    let product := word * size
    if product % source.size ≤ zone then return product / source.size
    else scaled source zone size attempts

theorem scaled_lt (source : Words) (zone : Nat) {size : Nat} (h : 0 < size) (attempts : Nat)
    (s : Stream) : (scaled source zone size attempts s).1 < size := by
  induction attempts generalizing s with
  | zero => exact h
  | succ attempts ih =>
    have bound := source.lt_size s
    simp only [scaled, bind, StateT.bind]
    generalize source.draw s = drawn at bound
    obtain ⟨word, rest⟩ := drawn
    dsimp only at bound ⊢
    split
    · exact Nat.div_lt_of_lt_mul (Nat.mul_lt_mul_of_pos_right bound h)
    · exact ih _

/-- Low halves kept by the quick test: as many as the size shifted to the top of a word. -/
def shiftZone (source : Words) (size : Nat) : Nat := size <<< (source.bits - 1 - size.log2) - 1

/-- Low halves kept by the exact test: all but the remainder of the word range. -/
def exactZone (source : Words) (size : Nat) : Nat :=
  source.size - 1 - (source.size - size) % size

/-- Uniform below `size`, a positive number of at most 32 bits. -/
def index (size : Nat) : Draw Nat := scaled words32 (shiftZone words32 size) size maxAttempts

def indexExact (size : Nat) : Draw Nat := scaled words32 (exactZone words32 size) size maxAttempts

theorem index_lt {size : Nat} (h : 0 < size) (s : Stream) : (index size s).1 < size :=
  scaled_lt _ _ h _ s

theorem indexExact_lt {size : Nat} (h : 0 < size) (s : Stream) : (indexExact size s).1 < size :=
  scaled_lt _ _ h _ s

/-- Distance from the low end of a range of `size` numbers. A range of all 64-bit integers takes one
word as it is. -/
def offset (size : Nat) : Draw Nat :=
  if size = UInt64.size then words64.draw
  else scaled words64 (shiftZone words64 size) size maxAttempts

theorem offset_lt {size : Nat} (h : 0 < size) (s : Stream) : (offset size s).1 < size := by
  unfold offset
  split
  · next e => exact e ▸ words64.lt_size s
  · exact scaled_lt _ _ h _ s

/-- Uniform in `lo ..= hi`, two 64-bit integers in order. -/
def integerBetween (lo hi : Int) : Draw Int := do
  let distance ← offset (hi - lo + 1).toNat
  return lo + distance

theorem integerBetween_mem {lo hi : Int} (h : lo ≤ hi) (s : Stream) :
    lo ≤ (integerBetween lo hi s).1 ∧ (integerBetween lo hi s).1 ≤ hi := by
  have bound := @offset_lt (hi - lo + 1).toNat (by omega) s
  change lo ≤ lo + ((offset (hi - lo + 1).toNat s).1 : Int) ∧
    lo + ((offset (hi - lo + 1).toNat s).1 : Int) ≤ hi
  omega

/-- Rolls a percentage. Nothing is drawn for a probability of zero. -/
def roll (percentage : Nat) : Draw Bool :=
  if percentage = 0 then return false
  else do
    let n ← index 100
    return n < percentage

end JavaSmith.Random
