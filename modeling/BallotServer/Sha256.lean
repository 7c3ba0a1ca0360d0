/-! SHA-256 of a row of bytes, and the keyed digest built on it.

The message is followed by a one bit, zero bits and its length in bits, so that it fills whole
blocks of 64 bytes; eight words are carried from block to block. -/

namespace BallotServer.Sha256

structure State where
  a : UInt32
  b : UInt32
  c : UInt32
  d : UInt32
  e : UInt32
  f : UInt32
  g : UInt32
  h : UInt32
  deriving DecidableEq, Repr

/-- The fractional parts of the square roots of the first eight primes. -/
def start : State :=
  ⟨0x6a09e667, 0xbb67ae85, 0x3c6ef372, 0xa54ff53a,
    0x510e527f, 0x9b05688c, 0x1f83d9ab, 0x5be0cd19⟩

/-- The fractional parts of the cube roots of the first sixty-four primes. -/
def roundConstants : Array UInt32 :=
  #[0x428a2f98, 0x71374491, 0xb5c0fbcf, 0xe9b5dba5, 0x3956c25b, 0x59f111f1, 0x923f82a4, 0xab1c5ed5,
    0xd807aa98, 0x12835b01, 0x243185be, 0x550c7dc3, 0x72be5d74, 0x80deb1fe, 0x9bdc06a7, 0xc19bf174,
    0xe49b69c1, 0xefbe4786, 0x0fc19dc6, 0x240ca1cc, 0x2de92c6f, 0x4a7484aa, 0x5cb0a9dc, 0x76f988da,
    0x983e5152, 0xa831c66d, 0xb00327c8, 0xbf597fc7, 0xc6e00bf3, 0xd5a79147, 0x06ca6351, 0x14292967,
    0x27b70a85, 0x2e1b2138, 0x4d2c6dfc, 0x53380d13, 0x650a7354, 0x766a0abb, 0x81c2c92e, 0x92722c85,
    0xa2bfe8a1, 0xa81a664b, 0xc24b8b70, 0xc76c51a3, 0xd192e819, 0xd6990624, 0xf40e3585, 0x106aa070,
    0x19a4c116, 0x1e376c08, 0x2748774c, 0x34b0bcb5, 0x391c0cb3, 0x4ed8aa4a, 0x5b9cca4f, 0x682e6ff3,
    0x748f82ee, 0x78a5636f, 0x84c87814, 0x8cc70208, 0x90befffa, 0xa4506ceb, 0xbef9a3f7, 0xc67178f2]

@[inline]
def rotate (x : UInt32) (n : UInt32) : UInt32 := (x >>> n) ||| (x <<< (32 - n))

@[inline]
def sigma0 (x : UInt32) : UInt32 := rotate x 7 ^^^ rotate x 18 ^^^ (x >>> 3)

@[inline]
def sigma1 (x : UInt32) : UInt32 := rotate x 17 ^^^ rotate x 19 ^^^ (x >>> 10)

@[inline]
def byteAt (data : ByteArray) (i : Nat) : UInt8 := if h : i < data.size then data[i] else 0

def wordAt (data : ByteArray) (i : Nat) : UInt32 :=
  ((byteAt data i).toUInt32 <<< 24) ||| ((byteAt data (i + 1)).toUInt32 <<< 16) |||
    ((byteAt data (i + 2)).toUInt32 <<< 8) ||| (byteAt data (i + 3)).toUInt32

def inputWords (data : ByteArray) (offset : Nat) : Nat → Array UInt32 → Array UInt32
  | 0, w => w
  | n + 1, w => inputWords data (offset + 4) n (w.push (wordAt data offset))

/-- Each later word of the schedule is computed from four earlier ones. -/
def extend : Nat → Array UInt32 → Array UInt32
  | 0, w => w
  | n + 1, w =>
    let i := w.size
    extend n (w.push (sigma1 (w.getD (i - 2) 0) + w.getD (i - 7) 0 +
      sigma0 (w.getD (i - 15) 0) + w.getD (i - 16) 0))

def schedule (data : ByteArray) (offset : Nat) : Array UInt32 :=
  extend 48 (inputWords data offset 16 (Array.mkEmpty 64))

def rounds (w : Array UInt32) : Nat → Nat → State → State
  | 0, _, s => s
  | n + 1, i, ⟨a, b, c, d, e, f, g, h⟩ =>
    let t1 := h + (rotate e 6 ^^^ rotate e 11 ^^^ rotate e 25) +
      ((e &&& f) ^^^ ((~~~e) &&& g)) + roundConstants.getD i 0 + w.getD i 0
    let t2 := (rotate a 2 ^^^ rotate a 13 ^^^ rotate a 22) +
      ((a &&& b) ^^^ (a &&& c) ^^^ (b &&& c))
    rounds w n (i + 1) ⟨t1 + t2, a, b, c, d + t1, e, f, g⟩

def compress (data : ByteArray) (offset : Nat) (s : State) : State :=
  let r := rounds (schedule data offset) 64 0 s
  ⟨s.a + r.a, s.b + r.b, s.c + r.c, s.d + r.d, s.e + r.e, s.f + r.f, s.g + r.g, s.h + r.h⟩

def absorb (data : ByteArray) : Nat → Nat → State → State
  | 0, _, s => s
  | blocks + 1, offset, s => absorb data blocks (offset + 64) (compress data offset s)

def zeros : Nat → ByteArray → ByteArray
  | 0, data => data
  | n + 1, data => zeros n (data.push 0)

/-- Appends the low `n` bytes of a number, most significant first. -/
def pushNumber (value : Nat) : Nat → ByteArray → ByteArray
  | 0, data => data
  | n + 1, data => pushNumber value n (data.push (value / Nat.pow 256 n).toUInt8)

def fill (message : ByteArray) : ByteArray :=
  pushNumber (8 * message.size) 8 (zeros ((119 - message.size % 64) % 64) (message.push 0x80))

def State.words (s : State) : List UInt32 := [s.a, s.b, s.c, s.d, s.e, s.f, s.g, s.h]

def State.bytes (s : State) : ByteArray :=
  s.words.foldl (fun out word => pushNumber word.toNat 4 out) ByteArray.empty

def hash (message : ByteArray) : ByteArray :=
  let data := fill message
  (absorb data (data.size / 64) 0 start).bytes

/-- A key of at most one block, filled up with zeros. -/
def blockKey (key : ByteArray) : ByteArray :=
  let short := if key.size ≤ 64 then key else hash key
  zeros (64 - short.size) short

def mask (value : UInt8) (key : ByteArray) : ByteArray :=
  key.foldl (fun out b => out.push (b ^^^ value)) ByteArray.empty

def keyed (key message : ByteArray) : ByteArray :=
  let k := blockKey key
  hash (mask 0x5c k ++ hash (mask 0x36 k ++ message))

@[simp] theorem size_pushNumber (value n : Nat) (data : ByteArray) :
    (pushNumber value n data).size = data.size + n := by
  induction n generalizing data with
  | zero => rfl
  | succ n ih => rw [pushNumber, ih]; simp; omega

@[simp] theorem State.size_bytes (s : State) : s.bytes.size = 32 := by
  simp [State.bytes, State.words]

theorem size_hash (message : ByteArray) : (hash message).size = 32 := State.size_bytes _

theorem size_keyed (key message : ByteArray) : (keyed key message).size = 32 := size_hash _

end BallotServer.Sha256
