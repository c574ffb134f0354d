/-!
The SHA-1 digest of a byte string.  The message is padded to whole blocks of sixteen 32-bit words,
and each block is mixed into five chaining words.
-/

namespace FeatureGates
namespace Sha1

abbrev Word := BitVec 32

/-- The chaining words between two blocks. -/
structure State where
  a : Word
  b : Word
  c : Word
  d : Word
  e : Word

def State.start : State := ⟨0x67452301, 0xEFCDAB89, 0x98BADCFE, 0x10325476, 0xC3D2E1F0⟩

def State.add (s t : State) : State := ⟨s.a + t.a, s.b + t.b, s.c + t.c, s.d + t.d, s.e + t.e⟩

/-- The length of the message in bits as eight bytes, highest first. -/
def lengthBytes (bytes : Nat) : List UInt8 :=
  (List.range 8).map fun i => UInt8.ofNat ((8 * bytes) >>> (8 * (7 - i)))

/-- A one bit, as many zeros as fill up the last block, and the length. -/
def pad (message : List UInt8) : List UInt8 :=
  message ++ 0x80 :: List.replicate ((119 - message.length % 64) % 64) 0 ++
    lengthBytes message.length

def words : List UInt8 → List Word
  | a :: b :: c :: d :: rest =>
    (a.toBitVec ++ b.toBitVec ++ c.toBitVec ++ d.toBitVec : BitVec 32) :: words rest
  | _ => []

/-- Adds `n` words to a schedule that is held latest first; each new word mixes the words 3, 8, 14
and 16 places before it. -/
def extend : Nat → List Word → List Word
  | 0, schedule => schedule
  | n + 1, schedule =>
    let mixed := schedule.getD 2 0 ^^^ schedule.getD 7 0 ^^^ schedule.getD 13 0 ^^^
      schedule.getD 15 0
    extend n (mixed.rotateLeft 1 :: schedule)

/-- The eighty words of the rounds that mix in one block. -/
def schedule (block : List Word) : List Word := (extend 64 block.reverse).reverse

/-- The Boolean function and the constant of round `t`. -/
def roundPart (s : State) (t : Nat) : Word × Word :=
  if t < 20 then ((s.b &&& s.c) ||| (~~~s.b &&& s.d), 0x5A827999)
  else if t < 40 then (s.b ^^^ s.c ^^^ s.d, 0x6ED9EBA1)
  else if t < 60 then ((s.b &&& s.c) ||| (s.b &&& s.d) ||| (s.c &&& s.d), 0x8F1BBCDC)
  else (s.b ^^^ s.c ^^^ s.d, 0xCA62C1D6)

def round (s : State) (w : Word × Nat) : State :=
  let (f, k) := roundPart s w.2
  ⟨s.a.rotateLeft 5 + f + s.e + k + w.1, s.a, s.b.rotateLeft 30, s.c, s.d⟩

def compress (s : State) (block : List Word) : State :=
  s.add ((schedule block).zipIdx.foldl round s)

/-- Mixes in `n` blocks. -/
def absorb : Nat → State → List Word → State
  | 0, s, _ => s
  | n + 1, s, ws => absorb n (compress s (ws.take 16)) (ws.drop 16)

def digest (message : List UInt8) : BitVec 160 :=
  let ws := words (pad message)
  let s := absorb (ws.length / 16) State.start ws
  s.a ++ s.b ++ s.c ++ s.d ++ s.e

/-- The bytes of a digest, highest first. -/
def bytes (digest : BitVec 160) : List UInt8 :=
  (List.range 20).map fun i => UInt8.ofNat (digest.toNat >>> (8 * (19 - i)))

end Sha1
end FeatureGates
