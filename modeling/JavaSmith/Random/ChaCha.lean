/-! The ChaCha8 block function. Sixteen words, held as four rows of four; a double round mixes the
columns and then the diagonals, and the starting state is added back at the end. -/
namespace JavaSmith.Random.ChaCha

/-- Rows `a`, `b`, `c`, `d` of one column or diagonal. -/
structure Quad where
  a : UInt32
  b : UInt32
  c : UInt32
  d : UInt32
  deriving Inhabited

def rotateLeft (x n : UInt32) : UInt32 := (x <<< n) ||| (x >>> (32 - n))

def Quad.mix (q : Quad) : Quad :=
  let a := q.a + q.b
  let d := rotateLeft (q.d ^^^ a) 16
  let c := q.c + d
  let b := rotateLeft (q.b ^^^ c) 12
  let a := a + b
  let d := rotateLeft (d ^^^ a) 8
  let c := c + d
  let b := rotateLeft (b ^^^ c) 7
  ⟨a, b, c, d⟩

/-- Four columns; column `i` holds words `i`, `i + 4`, `i + 8` and `i + 12`. -/
structure State where
  w : Quad
  x : Quad
  y : Quad
  z : Quad
  deriving Inhabited

namespace State

def columnRound (s : State) : State := ⟨s.w.mix, s.x.mix, s.y.mix, s.z.mix⟩

/-- Brings every diagonal into a column: row `b` moves by one place, `c` by two and `d` by three. -/
def toDiagonals (s : State) : State :=
  ⟨⟨s.w.a, s.x.b, s.y.c, s.z.d⟩, ⟨s.x.a, s.y.b, s.z.c, s.w.d⟩,
   ⟨s.y.a, s.z.b, s.w.c, s.x.d⟩, ⟨s.z.a, s.w.b, s.x.c, s.y.d⟩⟩

def ofDiagonals (s : State) : State :=
  ⟨⟨s.w.a, s.z.b, s.y.c, s.x.d⟩, ⟨s.x.a, s.w.b, s.z.c, s.y.d⟩,
   ⟨s.y.a, s.x.b, s.w.c, s.z.d⟩, ⟨s.z.a, s.y.b, s.x.c, s.w.d⟩⟩

def doubleRound (s : State) : State := s.columnRound.toDiagonals.columnRound.ofDiagonals

def rounds : Nat → State → State
  | 0, s => s
  | n + 1, s => rounds n s.doubleRound

def addQuad (p q : Quad) : Quad := ⟨p.a + q.a, p.b + q.b, p.c + q.c, p.d + q.d⟩

def add (s t : State) : State :=
  ⟨addQuad s.w t.w, addQuad s.x t.x, addQuad s.y t.y, addQuad s.z t.z⟩

def words (s : State) : Vector UInt32 16 :=
  #v[s.w.a, s.x.a, s.y.a, s.z.a, s.w.b, s.x.b, s.y.b, s.z.b,
     s.w.c, s.x.c, s.y.c, s.z.c, s.w.d, s.x.d, s.y.d, s.z.d]

end State

abbrev Key := Vector UInt32 8

def start (key : Key) (block : UInt64) : State :=
  ⟨⟨0x61707865, key[0], key[4], block.toUInt32⟩,
   ⟨0x3320646e, key[1], key[5], (block >>> 32).toUInt32⟩,
   ⟨0x79622d32, key[2], key[6], 0⟩,
   ⟨0x6b206574, key[3], key[7], 0⟩⟩

/-- Eight rounds are four double rounds. -/
def block (key : Key) (number : UInt64) : Vector UInt32 16 :=
  let s := start key number
  ((s.rounds 4).add s).words

end JavaSmith.Random.ChaCha
