import ClassInstrument.Bytes.Basic

/-!
# SHA-1

The digest by which bytes are known: twenty bytes, computed from blocks of sixty-four.

* `Sha1.State` — five words, which every block changes;
* `Sha1.schedule` — the eighty words that a block is stretched to;
* `Sha1.absorb` — what a block does to the state;
* `Sha1.digest` — the digest of some bytes.
-/

namespace ClassInstrument.Sha1

/-- The five words that blocks change. -/
structure State where
  a : UInt32
  b : UInt32
  c : UInt32
  d : UInt32
  e : UInt32
deriving DecidableEq, Inhabited, Repr

/-- The words before the first block. -/
def State.start : State := ⟨0x67452301, 0xEFCDAB89, 0x98BADCFE, 0x10325476, 0xC3D2E1F0⟩

/-- The bits of a word turned to the left. -/
def rotate (count word : UInt32) : UInt32 := (word <<< count) ||| (word >>> (32 - count))

/-- The words of a block, from four bytes each, behind those already read. -/
def words : Array UInt32 → Bytes → Array UInt32
  | read, a :: b :: c :: d :: rest => words (read.push (UInt32.ofNat (Bytes.toNat [a, b, c, d]))) rest
  | read, _ => read

/-- One more word of the schedule, from four before it. -/
def stretch (schedule : Array UInt32) : Array UInt32 :=
  let n := schedule.size
  let word := schedule.getD (n - 3) 0 ^^^ schedule.getD (n - 8) 0 ^^^ schedule.getD (n - 14) 0
    ^^^ schedule.getD (n - 16) 0
  schedule.push (rotate 1 word)

/-- The eighty words of a block. -/
def schedule (block : Bytes) : Array UInt32 :=
  (List.range 64).foldl (fun schedule _ => stretch schedule) (words (Array.mkEmpty 80) block)

/-- The function and the constant of a round. -/
def mix (round : Nat) (b c d : UInt32) : UInt32 × UInt32 :=
  if round < 20 then ((b &&& c) ||| (~~~b &&& d), 0x5A827999)
  else if round < 40 then (b ^^^ c ^^^ d, 0x6ED9EBA1)
  else if round < 60 then ((b &&& c) ||| (b &&& d) ||| (c &&& d), 0x8F1BBCDC)
  else (b ^^^ c ^^^ d, 0xCA62C1D6)

/-- One round with its number and word. -/
def step (s : State) (round : Nat) (word : UInt32) : State :=
  let (f, k) := mix round s.b s.c s.d
  ⟨rotate 5 s.a + f + s.e + k + word, s.a, rotate 30 s.b, s.c, s.d⟩

/-- What a block does to the state. -/
def absorb (s : State) (block : Bytes) : State :=
  let t := (schedule block).toList.zipIdx.foldl (fun t (word, round) => step t round word) s
  ⟨s.a + t.a, s.b + t.b, s.c + t.c, s.d + t.d, s.e + t.e⟩

/-- What a number of blocks does to the state. -/
def absorbAll : Nat → State → Bytes → State
  | 0, s, _ => s
  | blocks + 1, s, bytes => absorbAll blocks (absorb s (bytes.take 64)) (bytes.drop 64)

/-- The bytes filled up to whole blocks: a set bit, zeros, and the number of bits in eight bytes. -/
def pad (bytes : Bytes) : Bytes :=
  let zeros := (119 - bytes.length % 64) % 64
  bytes ++ 0x80 :: List.replicate zeros 0 ++ Bytes.ofNat 8 (8 * bytes.length)

/-- The digest of some bytes. -/
def digest (bytes : Bytes) : Bytes :=
  let padded := pad bytes
  let s := absorbAll (padded.length / 64) .start padded
  [s.a, s.b, s.c, s.d, s.e].flatMap Word.encode

end ClassInstrument.Sha1
