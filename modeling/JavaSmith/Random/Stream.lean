import JavaSmith.Random.ChaCha

/-! The stream of random words that a seed determines, and draws from it. The words of successive
blocks follow one another with none skipped; a 64-bit draw takes two words, the low half first. -/
namespace JavaSmith.Random

/-- A position in a stream: the current block, the number of the next one, and how many words of the
current block were taken. -/
structure Stream where
  key : ChaCha.Key
  nextBlock : UInt64
  block : Vector UInt32 16
  taken : Nat
  deriving Inhabited

/-- One step of the generator that expands a seed into key words: a linear congruential step whose
state is scrambled by a shift and a rotation that the state itself selects. -/
def expandStep (state : UInt64) : UInt64 × UInt32 :=
  let state := state * 6364136223846793005 + 11634580027462260723
  let mixed := (((state >>> 18) ^^^ state) >>> 27).toUInt32
  let turn := (state >>> 59).toUInt32
  (state, (mixed >>> turn) ||| (mixed <<< ((32 - turn) % 32)))

def expand : Nat → UInt64 → List UInt32
  | 0, _ => []
  | n + 1, state =>
    let (state, word) := expandStep state
    word :: expand n state

theorem length_expand (n : Nat) (state : UInt64) : (expand n state).length = n := by
  induction n generalizing state with
  | zero => rfl
  | succ n ih => simp [expand, ih]

namespace Stream

def ofKey (key : ChaCha.Key) : Stream := ⟨key, 1, ChaCha.block key 0, 0⟩

def ofSeed (seed : UInt64) : Stream :=
  ofKey ⟨(expand 8 seed).toArray, by simp [length_expand]⟩

end Stream

/-- A draw takes words from the stream and leaves the rest of it. -/
abbrev Draw (α : Type) := StateM Stream α

def word32 : Draw UInt32 := fun s =>
  if h : s.taken < 16 then (s.block[s.taken], { s with taken := s.taken + 1 })
  else
    let block := ChaCha.block s.key s.nextBlock
    (block[0], { s with nextBlock := s.nextBlock + 1, block, taken := 1 })

def word64 : Draw UInt64 := do
  let low ← word32
  let high ← word32
  return (high.toUInt64 <<< 32) ||| low.toUInt64

/-- A fair coin: the top bit of a word. -/
def coin : Draw Bool := do
  let w ← word32
  return w >>> 31 == 1

/-- A real in `[0, 1)` with 53 random bits. -/
def unit : Draw Float := do
  let w ← word64
  return (w >>> 11).toFloat.scaleB (-53)

def below (threshold : UInt64) : Draw Bool := do
  let w ← word64
  return w < threshold

def times (n : Nat) (draw : Draw α) : Draw (List α) :=
  match n with
  | 0 => return []
  | n + 1 => do
    let first ← draw
    let rest ← times n draw
    return first :: rest

end JavaSmith.Random
