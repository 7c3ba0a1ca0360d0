/-! UTF-8 read with forgiveness: bytes that form no character count as one replacement character
for each longest row of them that could have started one. -/

namespace BallotServer.Utf8

def replacement : Char := '\ufffd'

def isTail (b : UInt8) : Bool := 0x80 ≤ b && b ≤ 0xBF

/-- How many bytes follow a first byte, and the range of the second. -/
def shape? (b : UInt8) : Option (Nat × UInt8 × UInt8) :=
  if 0xC2 ≤ b && b ≤ 0xDF then some (1, 0x80, 0xBF)
  else if b = 0xE0 then some (2, 0xA0, 0xBF)
  else if b = 0xED then some (2, 0x80, 0x9F)
  else if 0xE1 ≤ b && b ≤ 0xEF then some (2, 0x80, 0xBF)
  else if b = 0xF0 then some (3, 0x90, 0xBF)
  else if 0xF1 ≤ b && b ≤ 0xF3 then some (3, 0x80, 0xBF)
  else if b = 0xF4 then some (3, 0x80, 0x8F)
  else none

/-- Reads the remaining tails of a character whose bits so far are `code`. -/
def tails : Nat → Nat → List UInt8 → Char × List UInt8
  | 0, code, bs => (Char.ofNat code, bs)
  | _ + 1, _, [] => (replacement, [])
  | n + 1, code, b :: bs =>
    if isTail b then tails n (code * 64 + b.toNat % 64) bs else (replacement, b :: bs)

def next (b : UInt8) (bs : List UInt8) : Char × List UInt8 :=
  if b < 0x80 then (Char.ofNat b.toNat, bs)
  else match shape? b, bs with
    | some (n, low, high), c :: rest =>
      if low ≤ c && c ≤ high then
        tails (n - 1) (b.toNat % Nat.pow 2 (6 - n) * 64 + c.toNat % 64) rest
      else (replacement, c :: rest)
    | _, _ => (replacement, bs)

def firstChars : Nat → List UInt8 → List Char
  | 0, _ => []
  | _ + 1, [] => []
  | n + 1, b :: bs => (next b bs).1 :: firstChars n (next b bs).2

def excerpt (n : Nat) (bytes : ByteArray) : String := String.ofList (firstChars n bytes.data.toList)

def read? (bytes : List UInt8) : Option String := String.fromUTF8? ⟨bytes.toArray⟩

end BallotServer.Utf8
